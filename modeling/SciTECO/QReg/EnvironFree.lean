import SciTECO.QReg.Environ

/-!
# Failed exports of the environment

The array of entries is allocated without being cleared, filled in order and
terminated at last.  When the export fails, `g_strfreev()` frees the array as
far as it goes.
-/

namespace SciTECO
namespace QRegTable

/-!
## Arrays of strings
-/

/-- A slot of an array of strings. -/
inductive Slot where
  | unwritten
  | null
  | entry (str : Bytes)
deriving DecidableEq, Repr

/-- The array `envp` with the index of the pointer `p`. -/
structure EnvpArray where
  slots : List Slot
  pos : Nat
deriving DecidableEq, Repr

namespace EnvpArray

/-- `g_new()`. -/
def new (envpLen : Nat) : EnvpArray :=
  { slots := List.replicate envpLen Slot.unwritten, pos := 0 }

/-- `*p++ = slot`. -/
def put (envp : EnvpArray) (slot : Slot) : Except Fault EnvpArray :=
  if envp.pos < envp.slots.length then
    .ok { slots := envp.slots.set envp.pos slot, pos := envp.pos + 1 }
  else .error Fault.outOfBounds

/-- The entries in front of `p`. -/
def created (envp : EnvpArray) : List Bytes :=
  (envp.slots.take envp.pos).filterMap (fun slot =>
    match slot with
    | .entry str => some str
    | _ => none)

end EnvpArray

/-- What `g_strfreev()` meets behind the entries that it frees. -/
inductive Strfreev where
  | terminated (freed : List Bytes)
  | unwritten (freed : List Bytes)
  | outOfBounds (freed : List Bytes)
deriving DecidableEq, Repr

def Strfreev.cons (str : Bytes) : Strfreev -> Strfreev
  | terminated freed => terminated (str :: freed)
  | unwritten freed => unwritten (str :: freed)
  | outOfBounds freed => outOfBounds (str :: freed)

/-- `g_strfreev()`. -/
def strfreev : List Slot -> Strfreev
  | [] => .outOfBounds []
  | .null :: _ => .terminated []
  | .unwritten :: _ => .unwritten []
  | .entry str :: slots => (strfreev slots).cons str

/-- The result of `teco_qreg_table_get_environ()`.  A failed one has passed the
array to `g_strfreev()`. -/
inductive Export where
  | done (envp : EnvpArray)
  | failed (err : TecoError) (envp : EnvpArray)
deriving DecidableEq

section

-- `get_string` of the registers
variable (getString : Register -> Except TecoError Bytes)

/-- The loop that creates the entries. -/
def exportLoop : Nat -> Option (SearchTree.Position Register) -> EnvpArray ->
    Except Fault Export
  | 0, _, _ => .error Fault.outOfFuel
  | _ + 1, none, envp => (envp.put .null).map Export.done
  | fuel + 1, some p, envp =>
      if inRange p.val then
        if ignored p.val.name then exportLoop fuel p.next envp
        else
          match getString p.val with
          | .error e => .ok (.failed e envp)
          | .ok value =>
              if value.contains 0 then
                .ok (.failed (containsNull p.val.name) envp)
              else
                envp.put (.entry (environEntry p.val.name value)) >>=
                  exportLoop fuel p.next
      else (envp.put .null).map Export.done

/-- `teco_qreg_table_get_environ()` with its array. -/
def exportEnviron (t : Table) : Except Fault Export :=
  let first := SearchTree.lowerBound (cutAt ['$'.toUInt8]) t.tree [] none
  let fuel := t.registers.length + 1
  exportLoop getString fuel first (EnvpArray.new (environLength fuel first))

end

/-!
## Filling the array
-/

/-- Some entries have been created. -/
def filled (envpLen : Nat) (entries : List Bytes) : EnvpArray :=
  { slots := entries.map Slot.entry ++
      List.replicate (envpLen - entries.length) Slot.unwritten
    pos := entries.length }

theorem new_eq_filled (envpLen : Nat) :
    EnvpArray.new envpLen = filled envpLen [] := rfl

theorem filled_length {envpLen : Nat} {entries : List Bytes}
    (h : entries.length ≤ envpLen) :
    (filled envpLen entries).slots.length = envpLen := by
  unfold filled
  rw [List.length_append, List.length_map, List.length_replicate,
    Nat.add_sub_cancel' h]

theorem filled_set {envpLen : Nat} {entries : List Bytes} (slot : Slot)
    (h : entries.length < envpLen) :
    (filled envpLen entries).slots.set entries.length slot =
      entries.map Slot.entry ++ slot ::
        List.replicate (envpLen - (entries.length + 1)) Slot.unwritten := by
  have hsucc : envpLen - entries.length =
      envpLen - (entries.length + 1) + 1 := by omega
  have hlen : (entries.map Slot.entry).length = entries.length :=
    List.length_map _
  unfold filled
  rw [List.set_append_right _ _ (Nat.le_of_eq hlen), hlen, Nat.sub_self, hsucc,
    List.replicate_succ]
  rfl

theorem put_entry {envpLen : Nat} {entries : List Bytes}
    (h : entries.length < envpLen) (str : Bytes) :
    (filled envpLen entries).put (.entry str) =
      .ok (filled envpLen (entries ++ [str])) := by
  have hbound : (filled envpLen entries).pos <
      (filled envpLen entries).slots.length := by
    rw [filled_length (Nat.le_of_lt h)]
    exact h
  unfold EnvpArray.put
  rw [if_pos hbound]
  change Except.ok (EnvpArray.mk ((filled envpLen entries).slots.set
    entries.length (.entry str)) (entries.length + 1)) = _
  rw [filled_set _ h]
  unfold filled
  rw [List.length_append, List.map_append, List.append_assoc]
  rfl

theorem created_append (entries : List Bytes) (slots : List Slot) :
    (EnvpArray.mk (entries.map Slot.entry ++ slots) entries.length).created =
      entries := by
  have hlen : (entries.map Slot.entry).length = entries.length :=
    List.length_map _
  unfold EnvpArray.created
  dsimp only
  rw [<- hlen, List.take_left, List.filterMap_map]
  exact List.filterMap_some

/-- The array as it is passed to `g_strfreev()`. -/
theorem strfreev_filled {envpLen : Nat} {entries : List Bytes}
    (h : entries.length < envpLen) :
    strfreev (filled envpLen entries).slots = .unwritten entries := by
  have hsucc : envpLen - entries.length =
      envpLen - (entries.length + 1) + 1 := by omega
  have hall : forall (front : List Bytes) (count : Nat),
      strfreev (front.map Slot.entry ++
        List.replicate (count + 1) Slot.unwritten) = .unwritten front := by
    intro front count
    induction front with
    | nil => rfl
    | cons str front ih =>
        rw [List.map_cons, List.cons_append, strfreev, ih]
        rfl
  unfold filled
  rw [hsucc]
  exact hall entries _

/-!
## The loop
-/

section

variable {getString : Register -> Except TecoError Bytes}

/-- The string of the register can be fetched and has no nulls. -/
def Fetches (getString : Register -> Except TecoError Bytes)
    (q : Register) : Prop :=
  exists value, getString q = .ok value ∧ 0 ∉ value

/-- How the loop ends behind some entries. -/
structure Ends (getString : Register -> Except TecoError Bytes)
    (envpLen : Nat) (scanned : List Register) (result : Except Fault Export) :
    Prop where
  done : (forall q, q ∈ scanned -> IsEnviron q -> Fetches getString q) ->
    exists envp, result = .ok (.done envp)
  failed : (¬ forall q, q ∈ scanned -> IsEnviron q -> Fetches getString q) ->
    exists e entries, result = .ok (.failed e (filled envpLen entries)) ∧
      entries.length < envpLen

theorem ends_nil {envpLen : Nat} {entries : List Bytes}
    (h : entries.length < envpLen) :
    Ends getString envpLen []
      (((filled envpLen entries).put .null).map Export.done) := by
  have hbound : (filled envpLen entries).pos <
      (filled envpLen entries).slots.length := by
    rw [filled_length (Nat.le_of_lt h)]
    exact h
  constructor
  · intro _
    unfold EnvpArray.put
    rw [if_pos hbound]
    exact ⟨_, rfl⟩
  · intro hnot
    exact absurd (fun q hq => absurd hq List.not_mem_nil) hnot

/-- A register that is not at fault. -/
theorem Ends.cons {envpLen : Nat} {q : Register} {scanned : List Register}
    {result : Except Fault Export} (h : Ends getString envpLen scanned result)
    (hq : IsEnviron q -> Fetches getString q) :
    Ends getString envpLen (q :: scanned) result := by
  constructor
  · intro hall
    exact h.done (fun r hr => hall r (List.mem_cons_of_mem q hr))
  · intro hnot
    apply h.failed
    intro hall
    apply hnot
    intro r hr
    rcases List.mem_cons.mp hr with rfl | hr
    · exact hq
    · exact hall r hr

/-- The export fails at a register. -/
theorem ends_failed {envpLen : Nat} {q : Register} {scanned : List Register}
    {entries : List Bytes} (e : TecoError) (h : entries.length < envpLen)
    (hq : IsEnviron q) (hnot : ¬ Fetches getString q) :
    Ends getString envpLen (q :: scanned)
      (.ok (.failed e (filled envpLen entries))) := by
  constructor
  · intro hall
    exact absurd (hall q List.mem_cons_self hq) hnot
  · exact fun _ => ⟨e, entries, rfl, h⟩

theorem exportLoop_ends {envpLen fuel : Nat} :
    forall {cur : Option (SearchTree.Position Register)}
      {entries : List Bytes},
      (SearchTree.rest cur).length < fuel ->
      entries.length + ((SearchTree.rest cur).takeWhile inRange).length <
        envpLen ->
      Ends getString envpLen ((SearchTree.rest cur).takeWhile inRange)
        (exportLoop getString fuel cur (filled envpLen entries)) := by
  induction fuel with
  | zero => exact fun h => absurd h (Nat.not_lt_zero _)
  | succ fuel ih =>
      intro cur entries hfuel hlength
      cases cur with
      | none => exact ends_nil hlength
      | some p =>
          rw [SearchTree.rest_next] at hfuel hlength ⊢
          have hfuel' := Nat.lt_of_succ_lt_succ hfuel
          rw [exportLoop]
          cases hin : inRange p.val with
          | false =>
              have hneg : ¬ inRange p.val = true := by
                rw [hin]
                exact Bool.false_ne_true
              rw [List.takeWhile_cons_of_neg hneg] at hlength ⊢
              rw [if_neg Bool.false_ne_true]
              exact ends_nil hlength
          | true =>
              rw [List.takeWhile_cons_of_pos hin] at hlength ⊢
              rw [List.length_cons] at hlength
              rw [if_pos rfl]
              cases hignored : ignored p.val.name with
              | true =>
                  rw [if_pos rfl]
                  apply Ends.cons (ih hfuel' (by omega))
                  intro henv
                  rw [henv.2] at hignored
                  cases hignored
              | false =>
                  have henv : IsEnviron p.val := ⟨hin, hignored⟩
                  rw [if_neg Bool.false_ne_true]
                  cases hget : getString p.val with
                  | error e =>
                      apply ends_failed e (by omega) henv
                      rintro ⟨value, hvalue, _⟩
                      rw [hget] at hvalue
                      cases hvalue
                  | ok value =>
                      dsimp only
                      by_cases hnull : value.contains 0 = true
                      · rw [if_pos hnull]
                        apply ends_failed _ (by omega) henv
                        rintro ⟨value', hvalue, hnot⟩
                        rw [hget] at hvalue
                        cases hvalue
                        exact hnot (List.contains_iff_mem.mp hnull)
                      · rw [if_neg hnull, put_entry (by omega)]
                        apply Ends.cons
                        · apply ih hfuel'
                          rw [List.length_append, List.length_singleton]
                          omega
                        · exact fun _ => ⟨value, hget, fun hmem =>
                            hnull (List.contains_iff_mem.mpr hmem)⟩

theorem exportEnviron_ends (t : Table) :
    exists envpLen, Ends getString envpLen (t.registers.filter inRange)
      (exportEnviron getString t) := by
  rcases scan_registers t with ⟨hscan, hfuel⟩
  unfold exportEnviron
  dsimp only
  refine ⟨environLength (t.registers.length + 1)
    (SearchTree.lowerBound (cutAt ['$'.toUInt8]) t.tree [] none), ?_⟩
  rw [<- hscan, new_eq_filled]
  apply exportLoop_ends hfuel
  rw [environLength_eq hfuel, List.length_nil, Nat.zero_add]
  exact Nat.lt_succ_self _

end

/-!
## Cleaning up
-/

/-- A failed export frees exactly the entries that it has created. -/
def CleansUp (getString : Register -> Except TecoError Bytes)
    (t : Table) : Prop :=
  forall e envp, exportEnviron getString t = .ok (.failed e envp) ->
    strfreev envp.slots = .terminated envp.created

/-- Every failed export looks at a slot which has not been written. -/
theorem exportEnviron_cleansUp_iff
    (getString : Register -> Except TecoError Bytes) (t : Table) :
    (forall e envp, exportEnviron getString t = .ok (.failed e envp) ->
      strfreev envp.slots = .unwritten envp.created) ∧
    (CleansUp getString t <->
      forall q, q ∈ t.registers -> IsEnviron q -> Fetches getString q) := by
  rcases @exportEnviron_ends getString t with ⟨envpLen, hends⟩
  have hfilter : (forall q, q ∈ t.registers.filter inRange ->
      IsEnviron q -> Fetches getString q) <->
        forall q, q ∈ t.registers -> IsEnviron q -> Fetches getString q := by
    constructor
    · exact fun h q hq henv =>
        h q (List.mem_filter.mpr ⟨hq, henv.1⟩) henv
    · exact fun h q hq henv => h q (List.mem_filter.mp hq).1 henv
  have hstray : forall e envp,
      exportEnviron getString t = .ok (.failed e envp) ->
        strfreev envp.slots = .unwritten envp.created := by
    intro e envp hfailed
    by_cases hall : forall q, q ∈ t.registers.filter inRange ->
        IsEnviron q -> Fetches getString q
    · rcases hends.done hall with ⟨envp', hdone⟩
      rw [hdone] at hfailed
      cases hfailed
    · rcases hends.failed hall with ⟨e', entries, hfail, hlen⟩
      rw [hfail] at hfailed
      cases hfailed
      rw [strfreev_filled hlen]
      exact congrArg Strfreev.unwritten (created_append entries _).symm
  refine ⟨hstray, ?_⟩
  rw [<- hfilter]
  constructor
  · intro hclean
    apply Classical.byContradiction
    intro hall
    rcases hends.failed hall with ⟨e, entries, hfail, _⟩
    have hfreed := hclean e _ hfail
    rw [hstray e _ hfail] at hfreed
    cases hfreed
  · intro hall e envp hfailed
    rcases hends.done hall with ⟨envp', hdone⟩
    rw [hdone] at hfailed
    cases hfailed

/-- The variable `A` has a null as its value. -/
theorem exportEnviron_stray :
    ¬ forall (getString : Register -> Except TecoError Bytes) (t : Table),
      CleansUp getString t := by
  intro hall
  have hordered : Ordered [Register.plain ['$'.toUInt8, 'A'.toUInt8] [0]] :=
    List.pairwise_singleton _ _
  have hclean := hall (Register.getString noExternals)
    { tree := .node .leaf (.plain ['$'.toUInt8, 'A'.toUInt8] [0]) .leaf
      ordered := hordered }
  have hfreed := hclean _
    { slots := [.unwritten, .unwritten], pos := 0 } rfl
  exact absurd hfreed (by decide)

/-!
## The list of entries
-/

/-- The list of the entries that are returned. -/
def Export.listed :
    Except Fault Export -> Except (Stop TecoError Fault) (List Bytes)
  | .ok (.done envp) => .ok envp.created
  | .ok (.failed e _) => .error (.error e)
  | .error cause => .error (.fault cause)

theorem created_null (entries : List Bytes) (slots : List Slot) :
    (EnvpArray.mk (entries.map Slot.entry ++ .null :: slots)
      (entries.length + 1)).created = entries := by
  have htake : (entries.map Slot.entry ++ .null :: slots).take
      (entries.length + 1) = entries.map Slot.entry ++ [.null] := by
    rw [List.take_append, List.length_map, Nat.add_sub_cancel_left,
      List.take_of_length_le (by rw [List.length_map]; exact Nat.le_succ _)]
    rfl
  unfold EnvpArray.created
  dsimp only
  rw [htake, List.filterMap_append, List.filterMap_map]
  exact (List.append_nil _).trans List.filterMap_some

theorem listed_null {envpLen : Nat} {entries : List Bytes}
    (h : entries.length ≤ envpLen) :
    Export.listed (((filled envpLen entries).put .null).map Export.done) =
      terminate envpLen entries := by
  unfold EnvpArray.put terminate
  rw [filled_length h]
  by_cases hlt : entries.length < envpLen
  · have hpos : (filled envpLen entries).pos < envpLen := hlt
    rw [if_pos hpos, if_pos hlt]
    change Except.ok (EnvpArray.created (EnvpArray.mk
      ((filled envpLen entries).slots.set entries.length .null)
        (entries.length + 1))) = _
    rw [filled_set _ hlt]
    exact congrArg Except.ok (created_null entries _)
  · have hpos : ¬ (filled envpLen entries).pos < envpLen := hlt
    rw [if_neg hpos, if_neg hlt]
    rfl

/-- The list of entries is what the array consists of. -/
theorem environLoop_eq_listed (externals : Externals) {envpLen fuel : Nat} :
    forall {cur : Option (SearchTree.Position Register)}
      {entries : List Bytes}, entries.length ≤ envpLen ->
      environLoop externals envpLen fuel cur entries =
        Export.listed (exportLoop (Register.getString externals) fuel cur
          (filled envpLen entries)) := by
  induction fuel with
  | zero => exact fun _ => rfl
  | succ fuel ih =>
      intro cur entries h
      cases cur with
      | none => exact (listed_null h).symm
      | some p =>
          rw [environLoop, exportLoop]
          split
          · split
            · exact ih h
            · cases hget : p.val.getString externals with
              | error e => rfl
              | ok value =>
                  dsimp only
                  split
                  · rfl
                  · unfold storeEntry
                    by_cases hlt : entries.length < envpLen
                    · rw [if_pos hlt, put_entry hlt]
                      apply ih
                      rw [List.length_append]
                      exact hlt
                    · have hpos : ¬ (filled envpLen entries).pos <
                          (filled envpLen entries).slots.length := by
                        rw [filled_length h]
                        exact hlt
                      unfold EnvpArray.put
                      rw [if_neg hlt, if_neg hpos]
                      rfl
          · exact (listed_null h).symm

theorem getEnviron_eq_listed (externals : Externals) (t : Table) :
    getEnviron externals t =
      Export.listed (exportEnviron (Register.getString externals) t) :=
  environLoop_eq_listed externals (Nat.zero_le _)

end QRegTable
end SciTECO
