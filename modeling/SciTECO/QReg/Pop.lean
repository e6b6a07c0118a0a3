import SciTECO.Expressions.Stacks
import SciTECO.Strings

/-!
# Popping registers

`]q` takes the integer and the string of a register from the push-down stack.
The parts are set one after the other by the methods of the register, each of
which may fail.  With a colon the command reports a failure instead of raising
the error.
-/

namespace SciTECO
namespace QRegStack

open Undoable

/-- The kinds of registers by their methods.  `name` is what follows `~`. -/
inductive Kind where
  | plain
  | dot
  | radix
  | bufferInfo
  | workingDir
  | clipboard (name : Bytes)
deriving DecidableEq

/-- `teco_qreg_stack_entry_t`. -/
structure Entry where
  integer : TecoInt
  string : Bytes
deriving DecidableEq

/-- The integer and the string in a `teco_qreg_t`, the push-down stack with its
top at the end, and everything outside. -/
structure State (W : Type) where
  integer : TecoInt
  string : Bytes
  stack : List Entry
  world : W

/-- What the methods use of the buffers, the file system and the clipboards. -/
structure Host (W : Type) where
  /-- `teco_ring_get_id()` of the current buffer, and its filename -/
  bufferId : W -> TecoInt
  bufferName : W -> Bytes
  /-- `teco_ring_find()`, after which the buffer is edited -/
  editBuffer : TecoInt -> W -> Option W
  /-- the position in the current document in characters, and moving to one -/
  dot : W -> TecoInt
  gotoGlyph : TecoInt -> W -> Option W
  /-- `g_get_current_dir()` and `g_chdir()` -/
  currentDir : W -> Bytes
  chdir : Bytes -> W -> Option W
  /-- `TECO_ED_CLIP_PRIMARY`, `TECO_ED_AUTOEOL` and `teco_undo_enabled` -/
  clipPrimary : W -> Bool
  autoEol : W -> Bool
  undoEnabled : W -> Bool
  /-- `teco_eol_reader_convert_all()` and `teco_eol_writer_convert()` -/
  readEol : Bytes -> Except TecoError Bytes
  writeEol : W -> Bytes -> Except TecoError Bytes
  /-- `teco_interface_get_clipboard()` and `teco_interface_set_clipboard()` -/
  getClipboard : Bytes -> W -> Except TecoError Bytes
  setClipboard : Bytes -> Bytes -> W -> Except TecoError Unit × W

variable {W : Type} (host : Host W) (edHook : Exec (State W) Unit)
variable (q : Kind)

/-!
## Methods
-/

def movePointer : TecoError :=
  { code := ErrorCode.move
    message :=
      "Attempt to move pointer off page when setting Q-Register \":\"" }

def invalidRadix : TecoError := TecoError.failed "Invalid radix"

def invalidBuffer (id : TecoInt) : TecoError :=
  { code := ErrorCode.invalidBuf
    message := "Invalid buffer id " ++ toString id.toInt }

def containsNull : TecoError :=
  TecoError.failed "Directory contains null-character"

def cannotChange (dir : Bytes) : TecoError :=
  TecoError.failed ("Cannot change working directory to \"" ++
    String.ofList (dir.map (fun b => Char.ofNat b.toNat)) ++ "\"")

/-- `teco_qreg_clipboard_get_name()`. -/
def clipboardName (name : Bytes) (w : W) : Bytes :=
  if name ≠ [] then name
  else if host.clipPrimary w then ['P'.toUInt8] else ['C'.toUInt8]

/-- `teco_qreg_clipboard_get_string()`. -/
def clipboardString (name : Bytes) (w : W) : Except TecoError Bytes :=
  match host.getClipboard (clipboardName host name w) w with
  | .error e => .error e
  | .ok str => if host.autoEol w then host.readEol str else .ok str

/-- `get_integer`. -/
def getInteger (s : State W) : TecoInt :=
  match q with
  | .dot => host.dot s.world
  | .bufferInfo => host.bufferId s.world
  | _ => s.integer

/-- `get_string`. -/
def getString (s : State W) : Except TecoError Bytes :=
  match q with
  | .bufferInfo => .ok (host.bufferName s.world)
  | .workingDir => .ok (host.currentDir s.world)
  | .clipboard name => clipboardString host name s.world
  | _ => .ok s.string

/-- Replace what is outside, or raise an error. -/
def setWorld (w : Option W) (e : TecoError) : Exec (State W) Unit :=
  match w with
  | some w => modify (fun s => { s with world := w })
  | none => throw e

/-- `set_integer`. -/
def setInteger (value : TecoInt) : Exec (State W) Unit :=
  match q with
  | .dot => do
      let s <- get
      setWorld (host.gotoGlyph value s.world) movePointer
  | .radix =>
      if value.slt 2 then throw invalidRadix
      else modify (fun s => { s with integer := value })
  | .bufferInfo => do
      let s <- get
      setWorld (host.editBuffer value s.world) (invalidBuffer value)
      edHook
  | _ => modify (fun s => { s with integer := value })

/-- `teco_qreg_workingdir_set_string()`. -/
def setDirectory (str : Bytes) : Exec (State W) Unit :=
  if str.contains 0 then throw containsNull
  else do
    let s <- get
    setWorld (host.chdir str s.world) (cannotChange str)

/-- `teco_interface_set_clipboard()`, which may have an effect when it fails. -/
def writeClipboard (name str : Bytes) : Exec (State W) Unit := do
  let s <- get
  let written := host.setClipboard (clipboardName host name s.world) str s.world
  modify (fun s => { s with world := written.2 })
  match written.1 with
  | .ok () => pure ()
  | .error e => throw e

/-- The string as it is written into the clipboard. -/
def converted (str : Bytes) (w : W) : Except TecoError Bytes :=
  if host.autoEol w then host.writeEol w str else .ok str

/-- `teco_qreg_clipboard_set_string()`. -/
def setClipboardString (name str : Bytes) : Exec (State W) Unit := do
  let s <- get
  match converted host str s.world with
  | .ok str => writeClipboard host name str
  | .error e => throw e

/-- `undo_exchange_string`, where the clipboard has to be read. -/
def undoExchangeString : Exec (State W) Unit :=
  match q with
  | .clipboard name => do
      let s <- get
      if host.undoEnabled s.world then
        match host.getClipboard (clipboardName host name s.world) s.world with
        | .ok _ => pure ()
        | .error e => throw e
      else pure ()
  | _ => pure ()

/-- Use the string in a cell of the push-down stack. -/
def withCell (cell : Nat) (f : Entry -> Exec (State W) Unit) :
    Exec (State W) Unit := do
  let s <- get
  match s.stack[cell]? with
  | some entry => f entry
  | none => fault Fault.outOfBounds

/-- `teco_qreg_plain_exchange_string()`. -/
def plainExchangeString (cell : Nat) : Exec (State W) Unit :=
  withCell cell (fun entry => modify (fun s =>
    { s with
      string := entry.string
      stack := s.stack.set cell { entry with string := s.string } }))

/-- `teco_qreg_external_exchange_string()`. -/
def externalExchangeString (setString : Bytes -> Exec (State W) Unit)
    (cell : Nat) : Exec (State W) Unit :=
  withCell cell (fun entry => do
    let s <- get
    match getString host q s with
    | .error e => throw e
    | .ok own => do
        setString entry.string
        modify (fun s =>
          { s with stack := s.stack.set cell { entry with string := own } }))

/-- `exchange_string`. -/
def exchangeString (cell : Nat) : Exec (State W) Unit :=
  match q with
  | .workingDir => externalExchangeString host q (setDirectory host) cell
  | .clipboard name =>
      externalExchangeString host q (setClipboardString host name) cell
  | _ => plainExchangeString cell

/-- `teco_qreg_stack_pop()`.  `undo_set_integer` has nothing but tokens. -/
def stackPop : Exec (State W) Unit := do
  let s <- get
  match s.stack.getLast? with
  | none => throw (TecoError.failed "Q-Register stack empty")
  | some entry => do
      let cell := s.stack.length - 1
      setInteger host edHook q entry.integer
      undoExchangeString host q
      exchangeString host q cell
      modify (fun s => { s with stack := s.stack.dropLast })

/-- `teco_state_popqreg_got_register()` with a colon: the boolean which is
pushed. -/
def popColon : Exec (State W) Bool :=
  handle (do stackPop host edHook q; pure true) (fun _ => pure false)

/-!
## Failing
-/

/-- The register and the push-down stack are as they were. -/
def Unchanged (s s' : State W) : Prop :=
  getInteger host q s' = getInteger host q s ∧
    getString host q s' = getString host q s ∧ s'.stack = s.stack

variable {host edHook q} {s : State W}

/-- What happens when the command returns a failure is what the errors leave
behind. -/
theorem popColon_failed_iff {post : State W -> Prop} :
    (forall s' tokens, popColon host edHook q s = .ok false s' tokens ->
      post s') <->
    wp (stackPop host edHook q) (fun _ _ => True) (fun _ s' => post s')
      (fun _ => True) s := by
  have hwp : wp (popColon host edHook q) (fun b s' => b = false -> post s')
      (fun _ _ => True) (fun _ => True) s <->
      wp (stackPop host edHook q) (fun _ _ => True) (fun _ s' => post s')
        (fun _ => True) s := by
    unfold popColon
    simp
  rw [<- hwp]
  unfold wp
  cases popColon host edHook q s with
  | ok b s' tokens =>
      constructor
      · rintro h rfl
        exact h s' tokens rfl
      · intro h t tokens' heq
        cases heq
        exact h rfl
  | error e s' tokens =>
      refine ⟨fun _ => trivial, fun _ t tokens' heq => ?_⟩
      cases heq
  | fault c =>
      refine ⟨fun _ => trivial, fun _ t tokens' heq => ?_⟩
      cases heq

/-- The exchange of the string and what follows. -/
def exchange (host : Host W) (q : Kind) (cell : Nat) : Exec (State W) Unit := do
  undoExchangeString host q
  exchangeString host q cell
  modify (fun s => { s with stack := s.stack.dropLast })

theorem wp_stackPop {entry : Entry} (h : s.stack.getLast? = some entry)
    {fail : TecoError -> State W -> Prop} :
    wp (stackPop host edHook q) (fun _ _ => True) fail (fun _ => True) s <->
      wp (setInteger host edHook q entry.integer)
        (fun _ s' => wp (exchange host q (s.stack.length - 1))
          (fun _ _ => True) fail (fun _ => True) s') fail (fun _ => True) s := by
  unfold stackPop
  rw [wp_bind, wp_get, h]
  exact wp_bind _ _

theorem wp_plainExchangeString (cell : Nat)
    {fail : TecoError -> State W -> Prop} :
    wp (plainExchangeString cell) (fun _ _ => True) fail (fun _ => True)
      s := by
  unfold plainExchangeString withCell
  rw [wp_bind, wp_get]
  cases s.stack[cell]? with
  | none => trivial
  | some entry => trivial

/-- Plain strings are always exchanged. -/
theorem wp_exchange_plain (cell : Nat) {fail : TecoError -> State W -> Prop}
    (hq : undoExchangeString host q = pure ())
    (hq' : exchangeString host q cell = plainExchangeString cell) :
    wp (exchange host q cell) (fun _ _ => True) fail (fun _ => True) s := by
  unfold exchange
  rw [hq, hq', wp_bind, wp_pure, wp_bind]
  exact wp_call (wp_plainExchangeString cell) (fun _ _ _ => trivial)

theorem wp_setWorld (w : Option W) (e : TecoError)
    {post : Unit -> State W -> Prop} {fail : TecoError -> State W -> Prop}
    {bad : Fault -> Prop} :
    wp (setWorld w e) post fail bad s <->
      (w = none -> fail e s) ∧
        forall w', w = some w' -> post () { s with world := w' } := by
  cases w with
  | none => exact ⟨fun h => ⟨fun _ => h, fun _ hw => by cases hw⟩,
      fun h => h.1 rfl⟩
  | some w => exact ⟨fun h => ⟨fun hw => (by cases hw),
      fun w' hw => by cases hw; exact h⟩, fun h => h.2 w rfl⟩

theorem unchanged_refl : Unchanged host q s s := ⟨rfl, rfl, rfl⟩

/-!
## The kinds of registers
-/

/-- The ED hook leaves no error behind that changes the buffer, its name or the
push-down stack. -/
def HookKeeps (host : Host W) (edHook : Exec (State W) Unit) (s : State W)
    (w : W) : Prop :=
  forall e s' tokens, edHook { s with world := w } = .error e s' tokens ->
    Unchanged host .bufferInfo s s'

/-- The clipboard can be exchanged with the string. -/
def Exchangeable (host : Host W) (name str : Bytes) (w : W) : Prop :=
  exists own str' w', clipboardString host name w = .ok own ∧
    converted host str w = .ok str' ∧
    host.setClipboard (clipboardName host name w) str' w = (.ok (), w')

/-- A clipboard that could not be written is as it was. -/
def WriteKeeps (host : Host W) (name str : Bytes) (w : W) : Prop :=
  forall own str' e w', clipboardString host name w = .ok own ->
    converted host str w = .ok str' ->
    host.setClipboard (clipboardName host name w) str' w = (.error e, w') ->
    clipboardString host name w' = .ok own

/-- A failure keeps the register and the push-down stack. -/
def Keeps (host : Host W) (edHook : Exec (State W) Unit) (q : Kind)
    (s : State W) : Prop :=
  match s.stack.getLast? with
  | none => True
  | some entry =>
      match q with
      | .plain => True
      | .dot => True
      | .radix => True
      | .bufferInfo =>
          forall w, host.editBuffer entry.integer s.world = some w ->
            HookKeeps host edHook s w
      | .workingDir =>
          entry.integer = s.integer ∨
            (0 ∉ entry.string ∧
              (host.chdir entry.string s.world).isSome = true)
      | .clipboard name =>
          Exchangeable host name entry.string s.world ∨
            (entry.integer = s.integer ∧
              WriteKeeps host name entry.string s.world)

theorem wp_hook {w : W} :
    wp edHook (fun _ _ => True) (fun _ s' => Unchanged host .bufferInfo s s')
      (fun _ => True) { s with world := w } <-> HookKeeps host edHook s w := by
  unfold wp HookKeeps
  cases edHook { s with world := w } with
  | ok a s' tokens =>
      refine ⟨fun _ e t tokens' heq => ?_, fun _ => trivial⟩
      cases heq
  | error e s' tokens =>
      constructor
      · intro h e' t tokens' heq
        cases heq
        exact h
      · exact fun h => h e s' tokens rfl
  | fault c =>
      refine ⟨fun _ e t tokens' heq => ?_, fun _ => trivial⟩
      cases heq

theorem wp_withCell {cell : Nat} {entry : Entry}
    (h : s.stack[cell]? = some entry) (f : Entry -> Exec (State W) Unit)
    {post : Unit -> State W -> Prop} {fail : TecoError -> State W -> Prop}
    {bad : Fault -> Prop} :
    wp (withCell cell f) post fail bad s <-> wp (f entry) post fail bad s := by
  unfold withCell
  rw [wp_bind, wp_get, h]

/-- Only setting the string can fail when the string has been read. -/
theorem wp_externalExchangeString {setString : Bytes -> Exec (State W) Unit}
    {cell : Nat} {entry : Entry} (h : s.stack[cell]? = some entry)
    {fail : TecoError -> State W -> Prop} :
    wp (externalExchangeString host q setString cell) (fun _ _ => True) fail
      (fun _ => True) s <->
    (match getString host q s with
      | .error e => fail e s
      | .ok _ => wp (setString entry.string) (fun _ _ => True) fail
          (fun _ => True) s) := by
  unfold externalExchangeString
  rw [wp_withCell h, wp_bind, wp_get]
  cases getString host q s with
  | error e => exact Iff.rfl
  | ok own =>
      change wp (setString entry.string >>= _) _ _ _ s <-> _
      rw [wp_bind]
      exact Iff.rfl

theorem wp_exchange_directory {cell : Nat} {entry : Entry}
    (h : s.stack[cell]? = some entry) {keep : State W -> Prop} :
    wp (exchange host .workingDir cell) (fun _ _ => True)
      (fun _ s' => keep s') (fun _ => True) s <->
    (keep s ∨ (0 ∉ entry.string ∧
      (host.chdir entry.string s.world).isSome = true)) := by
  have hexchange := @wp_externalExchangeString W host .workingDir s
    (setDirectory host) cell entry h (fun _ s' => keep s')
  have hset : wp (setDirectory host entry.string) (fun _ _ => True)
      (fun _ s' => keep s') (fun _ => True) s <->
      (keep s ∨ (0 ∉ entry.string ∧
        (host.chdir entry.string s.world).isSome = true)) := by
    unfold setDirectory
    rw [wp_ite]
    by_cases hnull : 0 ∈ entry.string
    · rw [if_pos (List.contains_iff_mem.mpr hnull), wp_throw]
      constructor
      · exact .inl
      · rintro (hkeep | ⟨hno, _⟩)
        · exact hkeep
        · exact absurd hnull hno
    · rw [if_neg (fun hc => hnull (List.contains_iff_mem.mp hc)), wp_bind,
        wp_get, wp_setWorld]
      cases host.chdir entry.string s.world with
      | none =>
          constructor
          · exact fun hw => .inl (hw.1 rfl)
          · rintro (hkeep | ⟨_, hsome⟩)
            · exact ⟨fun _ => hkeep, fun _ _ => trivial⟩
            · cases hsome
      | some w =>
          refine ⟨fun _ => .inr ⟨hnull, rfl⟩, fun _ => ⟨fun hw => ?_, ?_⟩⟩
          · cases hw
          · exact fun _ _ => trivial
  unfold exchange
  rw [wp_bind]
  change wp (exchangeString host .workingDir cell >>= _) _ _ _ s <-> _
  rw [wp_bind, <- hset]
  exact hexchange

theorem wp_writeClipboard {name str : Bytes} {keep : State W -> Prop} :
    wp (writeClipboard host name str) (fun _ _ => True) (fun _ s' => keep s')
      (fun _ => True) s <->
    forall e w', host.setClipboard (clipboardName host name s.world) str
      s.world = (.error e, w') -> keep { s with world := w' } := by
  unfold writeClipboard
  rw [wp_bind, wp_get]
  dsimp only
  rw [wp_bind, wp_modify]
  rcases host.setClipboard (clipboardName host name s.world) str s.world with
    ⟨e | u, w⟩
  · constructor
    · intro hkeep e' w' heq
      cases heq
      exact hkeep
    · exact fun h => h e w rfl
  · refine ⟨fun _ e' w' heq => ?_, fun _ => trivial⟩
    cases heq

/-- Without the string of the clipboard nothing is written. -/
theorem wp_exchange_clipboard {name : Bytes} {cell : Nat} {entry : Entry}
    (h : s.stack[cell]? = some entry) {keep : State W -> Prop} :
    wp (exchange host (.clipboard name) cell) (fun _ _ => True)
      (fun _ s' => keep s') (fun _ => True) s <->
    (match clipboardString host name s.world with
      | .error _ => keep s
      | .ok _ =>
          match converted host entry.string s.world with
          | .error _ => keep s
          | .ok str => forall e w',
              host.setClipboard (clipboardName host name s.world) str
                s.world = (.error e, w') -> keep { s with world := w' }) := by
  have hexchange := @wp_externalExchangeString W host (.clipboard name) s
    (setClipboardString host name) cell entry h (fun _ s' => keep s')
  have hset : wp (setClipboardString host name entry.string) (fun _ _ => True)
      (fun _ s' => keep s') (fun _ => True) s <->
      (match converted host entry.string s.world with
        | .error _ => keep s
        | .ok str => forall e w',
            host.setClipboard (clipboardName host name s.world) str
              s.world = (.error e, w') -> keep { s with world := w' }) := by
    unfold setClipboardString
    rw [wp_bind, wp_get]
    cases converted host entry.string s.world with
    | error e => exact Iff.rfl
    | ok str => exact wp_writeClipboard
  rw [hset] at hexchange
  unfold exchange
  rw [wp_bind]
  change wp (do
    let s <- get
    if host.undoEnabled s.world then
      match host.getClipboard (clipboardName host name s.world) s.world with
      | .ok _ => pure ()
      | .error e => throw e
    else pure ()) _ _ _ s <-> _
  rw [wp_bind, wp_get, wp_ite]
  have hafter : wp (exchangeString host (.clipboard name) cell >>= fun _ =>
      modify (fun s => { s with stack := s.stack.dropLast }))
      (fun _ _ => True) (fun _ s' => keep s') (fun _ => True) s <->
      wp (externalExchangeString host (.clipboard name)
        (setClipboardString host name) cell) (fun _ _ => True)
        (fun _ s' => keep s') (fun _ => True) s := by
    rw [wp_bind]
    exact Iff.rfl
  have hget : getString host (.clipboard name) s =
      clipboardString host name s.world := rfl
  rw [hget] at hexchange
  cases hclip : host.getClipboard (clipboardName host name s.world) s.world with
  | error e =>
      have hstring : clipboardString host name s.world = .error e := by
        unfold clipboardString
        rw [hclip]
      rw [hstring] at hexchange ⊢
      split
      · exact Iff.rfl
      · exact hafter.trans hexchange
  | ok str =>
      split
      · exact hafter.trans hexchange
      · exact hafter.trans hexchange

/-- The cell at the top of the stack. -/
theorem getElem_top {l : List Entry} {entry : Entry}
    (h : l.getLast? = some entry) : l[l.length - 1]? = some entry := by
  rw [<- List.getLast?_eq_getElem?]
  exact h

/-- The integer is set when the exchange begins. -/
theorem unchanged_setInteger {value : TecoInt} {w : W}
    (hinteger : forall t : State W, getInteger host q t = t.integer)
    (hstring : forall t : State W,
      getString host q { t with integer := value } = getString host q t) :
    Unchanged host q s { s with integer := value, world := w } <->
      value = s.integer ∧
        getString host q { s with world := w } = getString host q s := by
  unfold Unchanged
  rw [hinteger, hinteger]
  have hworld := hstring { s with world := w }
  constructor
  · rintro ⟨hvalue, hsame, _⟩
    exact ⟨hvalue, hworld.symm.trans hsame⟩
  · rintro ⟨hvalue, hsame⟩
    exact ⟨hvalue, hworld.trans hsame, rfl⟩

/-- The condition on a clipboard, by the steps that can fail. -/
theorem clipboard_iff {name str : Bytes} {w : W} {same : Prop} {now : Prop}
    {later : W -> Prop}
    (hnow : now <-> same ∧ clipboardString host name w =
      clipboardString host name w)
    (hlater : forall w', later w' <-> same ∧
      clipboardString host name w' = clipboardString host name w) :
    (match clipboardString host name w with
      | .error _ => now
      | .ok _ =>
          match converted host str w with
          | .error _ => now
          | .ok str' => forall e w',
              host.setClipboard (clipboardName host name w) str' w =
                (.error e, w') -> later w') <->
      Exchangeable host name str w ∨ (same ∧ WriteKeeps host name str w) := by
  have hnow' : now <-> same := hnow.trans ⟨fun h => h.1, fun h => ⟨h, rfl⟩⟩
  unfold Exchangeable WriteKeeps
  cases hown : clipboardString host name w with
  | error e =>
      rw [hown] at hlater
      constructor
      · intro h
        refine .inr ⟨hnow'.mp h, ?_⟩
        intro own str' e' w' heq
        cases heq
      · rintro (⟨own, str', w', heq, _⟩ | ⟨hsame, _⟩)
        · cases heq
        · exact hnow'.mpr hsame
  | ok own =>
      rw [hown] at hlater
      cases hstr : converted host str w with
      | error e =>
          constructor
          · intro h
            refine .inr ⟨hnow'.mp h, ?_⟩
            intro own' str' e' w' _ heq
            cases heq
          · rintro (⟨own', str', w', _, heq, _⟩ | ⟨hsame, _⟩)
            · cases heq
            · exact hnow'.mpr hsame
      | ok str' =>
          rcases hset : host.setClipboard (clipboardName host name w) str' w
            with ⟨e | u, w'⟩
          · constructor
            · intro h
              have hkept := (hlater w').mp (h e w' hset)
              refine .inr ⟨hkept.1, ?_⟩
              intro own' str'' e' w'' hown' hstr' hset'
              cases hown'
              cases hstr'
              rw [hset] at hset'
              cases hset'
              exact hkept.2
            · rintro (⟨own', str'', w'', _, hstr', hset'⟩ | ⟨hsame, hkeeps⟩)
              · cases hstr'
                rw [hset] at hset'
                cases hset'
              · intro e' w'' hset'
                exact (hlater w'').mpr
                  ⟨hsame, hkeeps own str' e' w'' rfl rfl hset'⟩
          · constructor
            · exact fun _ => .inl ⟨own, str', w', rfl, rfl, hset⟩
            · intro _ e' w'' hset'
              rw [hset] at hset'
              cases hset'

/-- A failed pop keeps the register and the stack if and only if the integer
which has been set is the old one, or no string has to be set behind it that
cannot be. -/
theorem popColon_unchanged_iff {W : Type} (host : Host W)
    (edHook : Exec (State W) Unit) (q : Kind) (s : State W) :
    (forall s' tokens, popColon host edHook q s = .ok false s' tokens ->
      Unchanged host q s s') <-> Keeps host edHook q s := by
  rw [popColon_failed_iff]
  unfold Keeps
  cases hlast : s.stack.getLast? with
  | none =>
      unfold stackPop
      rw [wp_bind, wp_get, hlast]
      exact ⟨fun _ => trivial, fun _ => unchanged_refl⟩
  | some entry =>
      have htop := getElem_top hlast
      rw [wp_stackPop hlast]
      cases q with
      | plain =>
          exact ⟨fun _ => trivial, fun _ => wp_exchange_plain _ rfl rfl⟩
      | dot =>
          refine ⟨fun _ => trivial, fun _ => ?_⟩
          change wp (do let s <- get; setWorld _ _) _ _ _ s
          rw [wp_bind, wp_get, wp_setWorld]
          exact ⟨fun _ => unchanged_refl,
            fun _ _ => wp_exchange_plain _ rfl rfl⟩
      | radix =>
          refine ⟨fun _ => trivial, fun _ => ?_⟩
          change wp (if entry.integer.slt 2 then _ else _) _ _ _ s
          rw [wp_ite]
          split
          · exact unchanged_refl
          · exact wp_exchange_plain _ rfl rfl
      | bufferInfo =>
          change wp (do
            let s <- get
            setWorld _ _
            edHook) _ _ _ s <-> _
          rw [wp_bind, wp_get, wp_bind, wp_setWorld]
          have hhook : forall w, wp edHook
              (fun _ s' => wp (exchange host .bufferInfo (s.stack.length - 1))
                (fun _ _ => True)
                (fun _ s' => Unchanged host .bufferInfo s s')
                (fun _ => True) s')
              (fun _ s' => Unchanged host .bufferInfo s s') (fun _ => True)
              { s with world := w } <-> HookKeeps host edHook s w := by
            intro w
            rw [<- wp_hook]
            exact wp_iff (fun _ _ => ⟨fun _ => trivial,
              fun _ => wp_exchange_plain _ rfl rfl⟩)
          constructor
          · exact fun h w hw => (hhook w).mp (h.2 w hw)
          · exact fun h => ⟨fun _ => unchanged_refl,
              fun w hw => (hhook w).mpr (h w hw)⟩
      | workingDir =>
          change wp (exchange host .workingDir (s.stack.length - 1)) _ _ _
            { s with integer := entry.integer } <-> _
          have hsame := @unchanged_setInteger W host .workingDir s
            entry.integer s.world (fun _ => rfl) (fun _ => rfl)
          have hkeep : Unchanged host .workingDir s
              { s with integer := entry.integer } <->
              entry.integer = s.integer :=
            hsame.trans ⟨fun h => h.1, fun h => ⟨h, rfl⟩⟩
          have hexchange := @wp_exchange_directory W host
            { s with integer := entry.integer } _ entry htop
            (fun s' => Unchanged host .workingDir s s')
          exact hexchange.trans (or_congr hkeep Iff.rfl)
      | clipboard name =>
          change wp (exchange host (.clipboard name) (s.stack.length - 1)) _ _ _
            { s with integer := entry.integer } <-> _
          have hsame := fun w => @unchanged_setInteger W host
            (.clipboard name) s entry.integer w (fun _ => rfl) (fun _ => rfl)
          have hexchange := @wp_exchange_clipboard W host
            { s with integer := entry.integer } name _ entry htop
            (fun s' => Unchanged host (.clipboard name) s s')
          exact hexchange.trans (clipboard_iff (hsame s.world) hsame)

/-- A host with one buffer, one directory and no clipboard. -/
def smallHost : Host Unit where
  bufferId := fun _ => 1
  bufferName := fun _ => []
  editBuffer := fun id _ => if id = 1 then some () else none
  dot := fun _ => 0
  gotoGlyph := fun n _ => if n = 0 then some () else none
  currentDir := fun _ => ['/'.toUInt8]
  chdir := fun dir _ => if dir = ['/'.toUInt8] then some () else none
  clipPrimary := fun _ => false
  autoEol := fun _ => false
  undoEnabled := fun _ => true
  readEol := fun str => .ok str
  writeEol := fun _ str => .ok str
  getClipboard := fun _ _ =>
    .error { code := ErrorCode.clipboard, message := "No clipboard" }
  setClipboard := fun _ _ _ =>
    (.error { code := ErrorCode.clipboard, message := "No clipboard" }, ())

/-- A directory that does not exist leaves the integer 5 behind. -/
theorem popColon_missing_directory :
    ¬ forall (W : Type) (host : Host W) (edHook : Exec (State W) Unit)
      (q : Kind) (s s' : State W) (tokens : List (State W -> State W)),
      popColon host edHook q s = .ok false s' tokens ->
      Unchanged host q s s' := by
  intro hall
  let s : State Unit := {
    integer := 0
    string := []
    stack := [{ integer := 5, string := ['x'.toUInt8] }]
    world := () }
  have hrun : popColon smallHost (pure ()) .workingDir s =
      .ok false { s with integer := 5 } [] := rfl
  have hinteger := (hall Unit smallHost (pure ()) .workingDir s _ [] hrun).1
  have hne : (5 : TecoInt) = 0 := hinteger
  exact absurd hne (by decide)

end QRegStack
end SciTECO
