import SciTECO.Cmdline.Keys
import SciTECO.Cmdline.Machine
import SciTECO.Cmdline.Recorder

/-!
# The state between key presses

After every key press the machine has executed the effective command line, as
long as no key string runs into one of the branches that go wrong.
-/

namespace SciTECO
namespace Cmdline

open PositionLog Undoable Interpreter
open SciTECO.Parser (IsBoundary)

/-!
## Bytes of characters
-/

theorem unicharToUtf8_shape (chr : Gunichar) :
    exists b n, unicharToUtf8 chr = b :: utf8Tail chr n ∧ n ≤ 5 := by
  unfold unicharToUtf8
  simp only
  split
  · exact ⟨_, 0, rfl, by decide⟩
  split
  · exact ⟨_, 1, rfl, by decide⟩
  split
  · exact ⟨_, 2, rfl, by decide⟩
  split
  · exact ⟨_, 3, rfl, by decide⟩
  split
  · exact ⟨_, 4, rfl, by decide⟩
  · exact ⟨_, 5, rfl, by decide⟩

theorem length_unicharToUtf8_le (chr : Gunichar) :
    (unicharToUtf8 chr).length ≤ 6 := by
  rcases unicharToUtf8_shape chr with ⟨b, n, hshape, hle⟩
  rw [hshape, List.length_cons, length_utf8Tail]
  exact Nat.succ_le_succ hle

theorem utf8Tail_continuation (chr : Gunichar) (n : Nat) {b : UInt8}
    (hb : b ∈ utf8Tail chr n) : isContinuation b = true := by
  induction n with
  | zero => cases hb
  | succ n ih =>
      rcases List.mem_cons.mp hb with rfl | hb
      · exact beq_iff_eq.mpr (continuation_byte _).1
      · exact ih hb

/-- A byte within a sequence begins no character. -/
theorem utf8GetChar_continuation {b : UInt8} (hb : isContinuation b = true)
    (rest : Bytes) : utf8GetChar (b :: rest) = 0xFFFFFFFF := by
  have hbytes : (List.range 256).all (fun k =>
      decide (isContinuation (UInt8.ofNat k) = true ->
        ¬ UInt8.ofNat k < 0x80 ∧ UInt8.ofNat k < 0xC0)) = true := by
    decide +kernel
  have hrange := of_decide_eq_true
    (List.all_eq_true.mp hbytes b.toNat (List.mem_range.mpr b.toNat_lt))
  rw [UInt8.ofNat_toNat] at hrange
  rcases hrange hb with ⟨hlow, hhigh⟩
  rw [utf8GetChar, if_neg hlow, if_pos hhigh]

theorem unicharToUtf8_bytes {chr : Gunichar}
    (h : unicharValidate chr = true) :
    exists b tail, unicharToUtf8 chr = b :: tail ∧ isContinuation b = false ∧
      forall x, x ∈ tail -> isContinuation x = true := by
  have hlt := lt_of_unicharValidate h
  rcases unicharToUtf8_shape chr with ⟨b, n, hshape, _⟩
  refine ⟨b, _, hshape, ?_, fun x hx => utf8Tail_continuation chr n hx⟩
  rcases unicharToUtf8_readsAs hlt with ⟨b', tail, heq, hread⟩
  rw [hshape] at heq
  cases heq
  cases hcont : isContinuation b with
  | false => rfl
  | true =>
      have hchar := hread.char []
      rw [List.append_nil, utf8GetChar_continuation hcont] at hchar
      rw [<- hchar] at hlt
      exact absurd hlt (by decide)

theorem findPrevChar_encoded {text : List Gunichar} {chr : Gunichar}
    (h : unicharValidate chr = true) :
    findPrevChar (encoded (text ++ [chr])) = some (encoded text).length := by
  rcases unicharToUtf8_bytes h with ⟨b, tail, hchr, hlead, htail⟩
  have hbytes : encoded (text ++ [chr]) = encoded text ++ b :: tail := by
    rw [encoded_append, encoded_cons, encoded_nil, List.append_nil, hchr]
  have hbehind : ((encoded text ++ b :: tail).reverse.takeWhile
      isContinuation).length = tail.length := by
    rw [List.reverse_append, List.reverse_cons, List.append_assoc,
      List.takeWhile_append_of_pos
        (fun x hx => htail x (List.mem_reverse.mp hx)),
      List.singleton_append, List.takeWhile_cons_of_neg (by rw [hlead]; decide),
      List.append_nil, List.length_reverse]
  unfold findPrevChar
  dsimp only
  rw [hbytes, hbehind, List.length_append, List.length_cons, if_pos (by omega)]
  congr 1
  omega

theorem nextCharLen_encoded {text : List Gunichar} {chr : Gunichar}
    (hchr : unicharValidate chr = true) (h : ValidText text) :
    nextCharLen (encoded (chr :: text)) = (unicharToUtf8 chr).length := by
  rcases unicharToUtf8_bytes hchr with ⟨b, tail, heq, _, htail⟩
  have hnext : (encoded text).takeWhile isContinuation = [] := by
    cases text with
    | nil => rfl
    | cons next text =>
        rcases unicharToUtf8_bytes (h next List.mem_cons_self) with
          ⟨b', tail', heq', hlead', _⟩
        rw [encoded_cons, heq', List.cons_append,
          List.takeWhile_cons_of_neg (by rw [hlead']; decide)]
  rw [encoded_cons, heq, List.cons_append]
  change 1 + ((tail ++ encoded text).takeWhile isContinuation).length = _
  rw [List.takeWhile_append_of_pos htail, hnext, List.append_nil,
    List.length_cons, Nat.add_comm]

/-!
## Insertion and rubbing out
-/

variable {σ : Type} {I : Interpreter σ} {s₀ : σ} {fuel : Nat}
  {text rest : List Gunichar} {heads : Log σ} {s : σ} {c : Cmdline σ}

namespace Ready

theorem length_le (h : Ready I s₀ text rest heads s c) :
    c.effectiveLen ≤ c.str.length := by
  rw [h.effectiveLen, h.str, encoded_append, List.length_append]
  exact Nat.le_add_right _ _

theorem effective (h : Ready I s₀ text rest heads s c) :
    c.str.take c.effectiveLen = encoded text := by
  rw [h.effectiveLen, h.str, encoded_append, List.take_left]

theorem rubbedOut (h : Ready I s₀ text rest heads s c) :
    c.str.drop c.effectiveLen = encoded rest := by
  rw [h.effectiveLen, h.str, encoded_append, List.drop_left]

theorem machine (h : Ready I s₀ text rest heads s c) : I.Same c.machine s :=
  h.back.machine (h.effectiveLen ▸ h.logged)

/-- Characters are about to be executed. -/
theorem inserting (h : Ready I s₀ text rest heads s c)
    {chars : List Gunichar} (hchars : ValidText chars) :
    exists rest', Running I s₀ text (chars ++ rest') heads s []
        (c.inserting I (encoded chars)).cmdline ∧
      Within (c.inserting I (encoded chars)).cmdline := by
  have hrunning : forall (rest' : List Gunichar) (d : Cmdline σ),
      ValidText (text ++ (chars ++ rest')) ->
      d.machine = (c.setPc I c.effectiveLen).machine ->
      d.undoHeads = c.undoHeads -> d.pc = c.effectiveLen ->
      d.str = encoded (text ++ (chars ++ rest')) ->
      d.effectiveLen = c.effectiveLen + (encoded chars).length ->
      Running I s₀ text (chars ++ rest') heads s [] d ∧ Within d := by
    intro rest' d hvalid hmachine hheads hpc hstr hlength
    constructor
    · apply Running.begin h.back (h.effectiveLen ▸ h.logged) hvalid hstr
        (hpc.trans h.effectiveLen) hheads
      rw [hmachine, <- h.effectiveLen]
      rfl
    · refine ⟨⟨text ++ chars, rest', ?_, ?_, ?_⟩, ?_⟩
      · rw [List.append_assoc]
        exact hvalid
      · rw [List.append_assoc]
        exact hstr
      · rw [hlength, h.effectiveLen, encoded_append, List.length_append]
      · rw [hpc, hlength]
        exact Nat.le_add_right _ _
  unfold Cmdline.inserting putText
  dsimp only
  split
  case isTrue hmatches =>
      have hbegins : encoded chars <+: encoded rest := by
        rw [<- h.rubbedOut]
        exact List.prefix_iff_eq_take.mpr hmatches.2
      rcases encoded_begins hchars h.valid.right hbegins with ⟨rest', rfl⟩
      exact ⟨rest', hrunning rest' _ h.valid rfl rfl rfl h.str rfl⟩
  case isFalse =>
      refine ⟨[], hrunning [] _ ?_ rfl rfl rfl ?_ rfl⟩
      · rw [List.append_nil]
        exact h.valid.left.append hchars
      · rw [List.append_nil, encoded_append, <- h.effective]
        rfl

theorem insert (h : Ready I s₀ text rest heads s c) {data : Bytes}
    (hdata : ValidUtf8 data)
    (hsafe : Along I (SafePass I) fuel (c.inserting I data)) :
    LoopSpec I s₀ (Cmdline.insert I fuel data c) := by
  rcases encoded_characters hdata with ⟨heq, hvalid⟩
  rcases h.inserting hvalid with ⟨rest', hrunning, hwithin⟩
  unfold Cmdline.insert
  rw [if_neg (Nat.not_lt.mpr h.length_le)]
  rw [heq] at hrunning hwithin
  exact insertLoop_spec hrunning hwithin (fun hold => absurd rfl hold) hsafe

/-- The last character is rubbed out. -/
theorem rubbed {chr : Gunichar}
    (h : Ready I s₀ (text ++ [chr]) rest heads s c) :
    exists d heads' t, Cmdline.rubout c = .ok () d [] ∧ d.str = c.str ∧
      Ready I s₀ text (chr :: rest) heads' t d := by
  rcases h.back.undoPop (List.prefix_append text [chr]) with
    ⟨heads', t, hback⟩
  refine ⟨{ c.undoPop (encoded text).length with
    effectiveLen := (encoded text).length }, heads', t, ?_, rfl, ?_⟩
  · unfold Cmdline.rubout
    rw [if_neg (Nat.not_lt.mpr h.length_le), h.effective,
      findPrevChar_encoded (h.valid chr (by simp))]
  · exact
      { valid := by simpa using h.valid
        str := by
          have hstr := h.str
          rw [List.append_assoc] at hstr
          exact hstr
        effectiveLen := rfl
        logged := by
          change (c.undoHeads.take _).length ≤ _
          rw [List.length_take]
          exact Nat.min_le_left _ _
        back := hback.congr rfl (Same.refl _) }

theorem rubout (h : Ready I s₀ text rest heads s c) :
    LoopSpec I s₀ (Cmdline.rubout c) := by
  rcases List.eq_nil_or_concat text with rfl | ⟨front, chr, rfl⟩
  · unfold Cmdline.rubout
    rw [if_neg (Nat.not_lt.mpr h.length_le), h.effective]
    exact ⟨rfl, [], rest, heads, s, h⟩
  · rw [List.concat_eq_append] at h
    rcases h.rubbed with ⟨d, heads', t, hrun, _, hready⟩
    rw [hrun]
    exact ⟨rfl, front, chr :: rest, heads', t, hready⟩

/-- The bytes that are reinserted. -/
theorem rubin_data (h : Ready I s₀ text rest heads s c) :
    (c.str.drop c.effectiveLen).take
        (nextCharLen (c.str.drop c.effectiveLen)) =
      encoded (rest.take 1) := by
  rw [h.rubbedOut]
  cases rest with
  | nil => rfl
  | cons chr rest =>
      have hvalid := h.valid.right
      rw [nextCharLen_encoded (hvalid chr List.mem_cons_self)
        (fun x hx => hvalid x (List.mem_cons_of_mem chr hx)), encoded_cons,
        List.take_left]
      simp

theorem rubin (h : Ready I s₀ text rest heads s c)
    (hsafe : Along I (SafePass I) fuel
      (c.inserting I (encoded (rest.take 1)))) :
    LoopSpec I s₀ (Cmdline.rubin I fuel c) := by
  unfold Cmdline.rubin
  split
  case isTrue => exact ⟨rfl, text, rest, heads, s, h⟩
  case isFalse =>
      dsimp only
      rw [h.rubin_data]
      have hvalid : ValidText (rest.take 1) :=
        fun x hx => h.valid.right x (List.mem_of_mem_take hx)
      rcases h.inserting hvalid with ⟨rest', hrunning, hwithin⟩
      unfold Cmdline.insert
      rw [if_neg (Nat.not_lt.mpr h.length_le)]
      exact insertLoop_spec hrunning hwithin (fun hold => absurd rfl hold)
        hsafe

end Ready

/-!
## Key strings
-/

variable (I fuel)

/-- The steps of a callback do not run into a branch that goes wrong, and what
they insert is valid. -/
def Edits.Safe : Edits σ -> Cmdline σ -> Prop
  | done, _ => True
  | insert data next, c =>
      ValidUtf8 data ∧ Along I (SafePass I) fuel (c.inserting I data) ∧
        forall d, Cmdline.insert I fuel data c = .ok () d [] -> next.Safe d
  | rubin next, c =>
      Along I (SafePass I) fuel
          (c.inserting I ((c.str.drop c.effectiveLen).take
            (nextCharLen (c.str.drop c.effectiveLen)))) ∧
        forall d, Cmdline.rubin I fuel c = .ok () d [] -> next.Safe d
  | rubout next, c => forall d, Cmdline.rubout c = .ok () d [] -> next.Safe d
  | setModifier enabled next, c =>
      next.Safe { c with modifierEnabled := enabled }
  | look f, c => (f c).Safe c
  | stuck, _ => True

variable (callback : Gunichar -> Edits σ)

/-- If a key fails, the key string has begun in front of it between
characters. -/
def SafeKeys : Nat -> List Gunichar -> Cmdline σ -> Prop
  | _, [], _ => True
  | startPc, key :: keys, c =>
      (callback key).Safe I fuel c ∧
        match (callback key).run I fuel c with
        | .ok _ d _ => SafeKeys startPc keys d
        | .error e d _ =>
            if e.code ≠ ErrorCode.returned then
              startPc ≤ d.pc ∧ IsBoundary d.str startPc
            else SafeKeys 0 keys (d.terminated I)
        | .fault _ => True

def SafeKeypress (data : Bytes) (c : Cmdline σ) : Prop :=
  SafeKeys I fuel callback c.effectiveLen (characters data) c

/-- Sequences of key presses from the start of the program. -/
inductive Session (s : σ) : Cmdline σ -> Prop where
  | start : Session s (empty s)
  | key {c d : Cmdline σ} {data : Bytes} :
      Session s c -> typeKeys I fuel callback [data] c = some d -> Session s d

/-- No key string runs into one of the branches that go wrong. -/
inductive SafeSession (s : σ) : Cmdline σ -> Prop where
  | start : SafeSession s (empty s)
  | key {c d : Cmdline σ} {data : Bytes} :
      SafeSession s c -> SafeKeypress I fuel callback data c ->
      keypress I fuel callback data c = .ok () d [] -> SafeSession s d

/-- The state in which a command line begins. -/
def Begins (init s₀ : σ) : Prop :=
  s₀ = init ∨ exists line s, s₀ = I.terminate line s

/-- The machine has executed the effective command line, and there are no undo
tokens behind it. -/
structure Invariant (init : σ) (c : Cmdline σ) : Prop where
  length_le : c.effectiveLen ≤ c.str.length
  logged : forall pos, c.effectiveLen ≤ pos -> tokensAt c.undoHeads pos = []
  executed : exists s₀ text log s, Begins I init s₀ ∧
    encoded text = c.str.take c.effectiveLen ∧ Executed I s₀ text log s ∧
      I.Same c.machine s ∧
        forall pos, tokensAt c.undoHeads pos = tokensAt log pos

variable {I fuel callback}

theorem Ready.invariant {init : σ} (h : Ready I s₀ text rest heads s c)
    (hbegins : Begins I init s₀) : Invariant I init c where
  length_le := h.length_le
  logged := by
    intro pos hpos
    exact tokensAt_of_le (Nat.le_trans h.logged hpos)
  executed := by
    refine ⟨s₀, text, heads, s, hbegins, h.effective.symm, h.back.executed,
      h.machine, ?_⟩
    exact h.back.tokensAt_eq (h.effectiveLen ▸ h.logged)

theorem LoopSpec.bind {m : CmdlineExec σ Unit} {f : Unit -> CmdlineExec σ Unit}
    (hm : LoopSpec I s₀ (m c))
    (hf : forall d text rest heads s, m c = .ok () d [] ->
      Ready I s₀ text rest heads s d -> LoopSpec I s₀ (f () d)) :
    LoopSpec I s₀ ((m >>= f) c) := by
  change LoopSpec I s₀ (Undoable.bind m f c)
  unfold Undoable.bind
  cases hrun : m c with
  | ok u d tokens =>
      rw [hrun] at hm
      rcases hm with ⟨rfl, text, rest, heads, s, hready⟩
      have hnext := hf d text rest heads s hrun hready
      dsimp only
      cases hstep : f () d with
      | ok u' d' tokens' =>
          rw [hstep] at hnext
          exact ⟨by rw [hnext.1]; rfl, hnext.2⟩
      | error e d' tokens' =>
          rw [hstep] at hnext
          exact ⟨by rw [hnext.1]; rfl, hnext.2⟩
      | fault cause =>
          rw [hstep] at hnext
          exact hnext
  | error e d tokens =>
      rw [hrun] at hm
      exact hm
  | fault cause =>
      rw [hrun] at hm
      exact hm

/-- What a callback does to the command line. -/
theorem edits_spec (edits : Edits σ) (h : Ready I s₀ text rest heads s c)
    (hsafe : edits.Safe I fuel c) : LoopSpec I s₀ (edits.run I fuel c) := by
  induction edits generalizing text rest heads s c with
  | done => exact ⟨rfl, text, rest, heads, s, h⟩
  | insert data next ih =>
      rcases hsafe with ⟨hdata, hloop, hnext⟩
      apply LoopSpec.bind (h.insert hdata hloop)
      intro d text' rest' heads' s' hrun hready
      exact ih hready (hnext d hrun)
  | rubin next ih =>
      rcases hsafe with ⟨hloop, hnext⟩
      rw [h.rubin_data] at hloop
      apply LoopSpec.bind (h.rubin hloop)
      intro d text' rest' heads' s' hrun hready
      exact ih hready (hnext d hrun)
  | rubout next ih =>
      apply LoopSpec.bind h.rubout
      intro d text' rest' heads' s' hrun hready
      exact ih hready (hsafe d hrun)
  | setModifier enabled next ih =>
      have hset : Ready I s₀ text rest heads s
          { c with modifierEnabled := enabled } :=
        { valid := h.valid
          str := h.str
          effectiveLen := h.effectiveLen
          logged := h.logged
          back := h.back.congr rfl (Same.refl _) }
      have hmodify : LoopSpec I s₀ (Undoable.modify
          (fun c : Cmdline σ => { c with modifierEnabled := enabled }) c) :=
        ⟨rfl, text, rest, heads, s, hset⟩
      apply LoopSpec.bind hmodify
      intro d text' rest' heads' s' hrun hready
      cases hrun
      exact ih hready hsafe
  | look f ih => exact ih c h hsafe
  | stuck =>
      intro hcontra
      cases hcontra

/-!
## Keys
-/

/-- The command line is rubbed out up to where the key string begins. -/
theorem Stopped.recover {startPc : Nat}
    (h : Stopped I s₀ text rest heads s c) (hpc : startPc ≤ c.pc)
    (hboundary : IsBoundary c.str startPc) :
    exists text' rest' heads' s',
      Ready I s₀ text' rest' heads' s' (c.recover I startPc) := by
  rcases hboundary with ⟨front, back, hvalid, hstr, rfl⟩
  have hsplit : front ++ back = text ++ rest :=
    encoded_inj hvalid h.valid (hstr.symm.trans h.str)
  have hfront : front <+: text :=
    h.within front (hsplit ▸ List.prefix_append _ _) hpc
  rcases h.back.undoPop hfront with ⟨heads', t, hback⟩
  refine ⟨front, back, heads', t, ?_⟩
  exact
    { valid := hvalid
      str := hstr
      effectiveLen := rfl
      logged := by
        change (c.undoHeads.take _).length ≤ _
        rw [List.length_take]
        exact Nat.min_le_left _ _
      back := hback.congr rfl (same_setMacroPc _ _) }

/-- An empty command line. -/
theorem nil_ready (hmachine : c.machine = s) (hstr : c.str = [])
    (hlength : c.effectiveLen = 0) (hheads : c.undoHeads = []) :
    Ready I s [] [] [] s c where
  valid := fun _ hchr => absurd hchr List.not_mem_nil
  str := hstr
  effectiveLen := hlength
  logged := by
    rw [hheads]
    exact Nat.zero_le _
  back :=
    { executed := Executed.nil
      restorable := Restorable.nil
      tokens := fun i hi => absurd hi (Nat.not_lt_zero i)
      undo := by
        intro _ hu
        rw [hheads, <- hmachine]
        exact hu }

/-- The machine has executed the effective command line. -/
def Between (I : Interpreter σ) (init : σ) (c : Cmdline σ) : Prop :=
  exists s₀ text rest heads s, Begins I init s₀ ∧
    Ready I s₀ text rest heads s c

/-- What a key string leaves behind. -/
def KeySpec (I : Interpreter σ) (init : σ) :
    Outcome TecoError CmdlineFault (Cmdline σ) Unit -> Prop
  | .ok _ c _ => Between I init c
  | .error e _ _ => e.code = ErrorCode.quit
  | .fault cause => cause ≠ CmdlineFault.undoHeads

theorem keyLoop_spec {init : σ} (keys : List Gunichar) {startPc : Nat}
    (hbegins : Begins I init s₀) (h : Ready I s₀ text rest heads s c)
    (hsafe : SafeKeys I fuel callback startPc keys c) :
    KeySpec I init (keyLoop I fuel callback startPc keys c) := by
  induction keys generalizing s₀ text rest heads s c startPc with
  | nil => exact ⟨s₀, text, rest, heads, s, hbegins, h⟩
  | cons key keys ih =>
      rcases hsafe with ⟨hedits, hafter⟩
      have hspec := edits_spec (callback key) h hedits
      unfold keyLoop
      cases hrun : (callback key).run I fuel c with
      | ok u d tokens =>
          rw [hrun] at hspec hafter
          rcases hspec with ⟨rfl, text', rest', heads', s', hready⟩
          exact ih hbegins hready hafter
      | error e d tokens =>
          rw [hrun] at hspec hafter
          rcases hspec with ⟨rfl, text', rest', heads', s', hstopped⟩
          dsimp only at hafter ⊢
          by_cases hcode : e.code = ErrorCode.returned
          · rw [if_neg (not_not_intro hcode)] at hafter
            rw [if_neg (not_not_intro hcode)]
            split
            case isTrue =>
                intro hcontra
                cases hcontra
            case isFalse =>
                split
                case isTrue => rfl
                case isFalse =>
                    exact ih (Or.inr ⟨_, _, rfl⟩) (nil_ready rfl rfl rfl rfl) hafter
          · rw [if_pos hcode] at hafter
            rw [if_pos hcode]
            rcases hstopped.recover hafter.1 hafter.2 with
              ⟨text', rest', heads', s', hready⟩
            exact ⟨s₀, text', rest', heads', s', hbegins, hready⟩
      | fault cause =>
          rw [hrun] at hspec
          exact hspec

/-- Invalid key strings do nothing. -/
theorem keypress_spec {init : σ} (hbegins : Begins I init s₀)
    (h : Ready I s₀ text rest heads s c) {data : Bytes}
    (hsafe : SafeKeypress I fuel callback data c) :
    match keypress I fuel callback data c with
    | .ok _ d _ => Between I init d
    | .error e d _ => e.code = ErrorCode.quit ∨ d = c
    | .fault cause => cause ≠ CmdlineFault.undoHeads := by
  unfold keypress
  by_cases hvalid : validateUtf8 data.length data = false
  · rw [if_pos hvalid]
    exact Or.inr rfl
  · rw [if_neg hvalid]
    have hspec := keyLoop_spec (characters data) hbegins h hsafe
    cases hrun : keyLoop I fuel callback c.effectiveLen (characters data) c with
    | ok u d tokens =>
        rw [hrun] at hspec
        exact hspec
    | error e d tokens =>
        rw [hrun] at hspec
        exact Or.inl hspec
    | fault cause =>
        rw [hrun] at hspec
        exact hspec

theorem Session.typed {init : σ} {keys : List Bytes} {d : Cmdline σ}
    (h : Session I fuel callback init c)
    (hrun : typeKeys I fuel callback keys c = some d) :
    Session I fuel callback init d := by
  induction keys generalizing c with
  | nil =>
      cases hrun
      exact h
  | cons data rest ih =>
      rcases typeKeys_cons hrun with ⟨c', hkey, hrest⟩
      exact ih (Session.key h hkey) hrest

/-- The state after a session. -/
theorem SafeSession.between {init : σ}
    (h : SafeSession I fuel callback init c) : Between I init c := by
  induction h with
  | start =>
      exact ⟨init, [], [], [], init, Or.inl rfl, nil_ready rfl rfl rfl rfl⟩
  | key _ hsafe hrun ih =>
      rcases ih with ⟨s₀, text, rest, heads, s, hbegins, hready⟩
      have hspec := keypress_spec hbegins hready hsafe
      rw [hrun] at hspec
      exact hspec

/-- The default callback on a machine that records what is typed. -/
def recorderKeys (key : Gunichar) : Edits Recording :=
  Edits.processEditCmd recorder 10 key

/-- A letter does not run into one of the branches that go wrong. -/
theorem letter_safe (s : Recording) :
    SafeKeypress recorder 10 recorderKeys [0x61] (empty s) := by
  have hloop : Along recorder (SafePass recorder) 10
      ((empty s).inserting recorder [0x61]) := by
    intro _
    have hbyte : ([0x61] : Bytes)[0]? ≠ some 0x7D := by decide
    refine ⟨recorder_safePass hbyte rfl, ?_⟩
    intro l hpass
    cases hpass
    intro hlt
    exact absurd hlt (Nat.lt_irrefl 1)
  have hedits : (recorderKeys 0x61).Safe recorder 10 (empty s) :=
    ⟨by unfold ValidUtf8; decide, hloop, fun _ _ => trivial⟩
  exact ⟨hedits, trivial⟩

theorem letter_session :
    exists c : Cmdline Recording,
      SafeSession recorder 10 recorderKeys ⟨[], []⟩ c ∧ c.str = [0x61] ∧
        c.effectiveLen = 1 :=
  ⟨{ machine := ⟨[0x61], []⟩
     undoHeads := [[fun _ => ⟨[], []⟩]]
     str := [0x61]
     effectiveLen := 1
     pc := 1
     modifierEnabled := false },
    SafeSession.key SafeSession.start (letter_safe _) rfl, rfl, rfl⟩

/-- The default callback on the machine of the parser. -/
def sampleKeys (key : Gunichar) :
    Edits (Parser.State Parser.SampleWorld Parser.SampleReg) :=
  Edits.processEditCmd Parser.sampleMachine 100 key

end Cmdline
end SciTECO
