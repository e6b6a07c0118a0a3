import SciTECO.BufferRing.Runs

/-!
# Sessions

A session begins with the unnamed buffer and the profile.  Afterwards characters
are typed and rubbed out, and the command line is terminated.
-/

namespace SciTECO
namespace BufferRing

open TailQueue

/-- What holds between two characters.  `past` are the contents when the
character of a position was typed. -/
structure Session (s : State) (a : Contents) (past : Nat -> Contents) :
    Prop where
  shape : Shape s a
  tidy : Tidy s
  ready : Ready a
  undoEnabled : s.undoEnabled = true
  present : past s.pc = a
  len_le : s.len ≤ s.pc
  chain : Chain s.heads past s.pc
  readyPast : forall i, i ≤ s.pc -> Ready (past i)
  accounts : forall i, i ≤ s.pc -> Accounts (past i) (ownedBelow s.heads i)

variable {s t : State} {a b : Contents} {past : Nat -> Contents}

theorem Session.untouched (h : Session s a past) : s.heads s.pc = [] :=
  h.tidy.heads _ h.len_le

/-- Up to a position the past is the same, as far as it can be told. -/
def SamePast (n : Nat) (past past' : Nat -> Contents) : Prop :=
  forall i, i ≤ n -> Alike (past' i) (past i)

theorem samePast_update {n k : Nat} (halike : Alike b (past k)) :
    SamePast n past (Function.update past k b) := by
  intro i _
  by_cases hi : i = k
  · rw [hi, Function.update_self]
    exact halike
  · rw [Function.update_of_ne hi]
    exact Alike.refl _

theorem SameRing.accounts (h : SameRing b a) {count : BufferId -> Nat}
    (hcount : Accounts a count) : Accounts b count := by
  intro id
  rw [<- hcount id]
  simp only [h.closed id]

/-- After positions have been taken back. -/
theorem session_popped {n : Nat}
    (hchain : Chain s.heads past n)
    (hready : forall i, i ≤ n -> Ready (past i))
    (haccounts : forall i, i ≤ n -> Accounts (past i) (ownedBelow s.heads i))
    (hundo : s.undoEnabled = true) (hpc : s.pc = n)
    (hshape : Shape t b) (halike : Alike b (past n))
    (hpopped : Popped n s t) :
    Session t b (Function.update past n b) := by
  have hpast : SamePast n past (Function.update past n b) :=
    samePast_update halike
  have hpc' : t.pc = n := hpopped.pc.trans hpc
  constructor
  · exact hshape
  · constructor
    · rw [hpc']
      exact Nat.le_succ_of_le hpopped.len_le
    · exact hpopped.tidy
  · exact (hready n (Nat.le_refl n)).of_alike halike
  · exact hpopped.undoEnabled.trans hundo
  · rw [hpc']
    exact Function.update_self _ _ _
  · rw [hpc']
    exact hpopped.len_le
  · rw [hpc']
    intro i hi
    rw [hpopped.before i hi, Function.update_of_ne (Nat.ne_of_lt hi)]
    exact (hchain i hi).of_alike (hpast (i + 1) hi)
  · rw [hpc']
    intro i hi
    exact (hready i hi).of_alike (hpast i hi)
  · rw [hpc']
    intro i hi id
    have hsame : ownedBelow t.heads i id = ownedBelow s.heads i id :=
      ownedBelow_congr
        (fun k hk => hpopped.before k (Nat.lt_of_lt_of_le hk hi)) id
    rw [hsame]
    exact (hpast i hi).ring.accounts (haccounts i hi) id

/-!
## One event
-/

/-- The present character has been executed, with or without an error. -/
structure Typed (s : State) (past : Nat -> Contents) (t : State)
    (past' : Nat -> Contents) : Prop where
  pc : t.pc = s.pc
  undoEnabled : t.undoEnabled = true
  heads : forall i, i < s.pc -> t.heads i = s.heads i
  tidy : Tidy t
  past_eq : forall i, i ≤ s.pc -> past' i = past i
  chain : Chain t.heads past' (s.pc + 1)
  accounts : Accounts (past' (s.pc + 1)) (ownedBelow t.heads (s.pc + 1))

theorem Session.typed {tokens : List Token} (h : Session s a past)
    (heffect : Effect s a t b tokens) :
    Typed s past t (Function.update past (s.pc + 1) b) := by
  have hheads : t.heads = Function.update s.heads s.pc tokens := by
    rw [heffect.logged.heads, if_pos h.undoEnabled, h.untouched,
      List.append_nil]
  have hbefore : forall i, i < s.pc -> t.heads i = s.heads i := by
    intro i hi
    rw [hheads, Function.update_of_ne (Nat.ne_of_lt hi)]
  have hpast : forall i, i ≤ s.pc ->
      Function.update past (s.pc + 1) b i = past i := by
    intro i hi
    exact Function.update_of_ne (Nat.ne_of_lt (Nat.lt_succ_of_le hi)) _ _
  have hlast : t.heads s.pc = tokens := by
    rw [hheads, Function.update_self]
  constructor
  · exact heffect.logged.pc
  · exact heffect.logged.undoEnabled.trans h.undoEnabled
  · exact hbefore
  · exact heffect.tidy
  · exact hpast
  · intro i hi
    rcases Nat.lt_or_ge i s.pc with hlt | hge
    · rw [hbefore i hlt, hpast i (Nat.le_of_lt hlt), hpast (i + 1) hlt]
      exact h.chain i hlt
    · have heq : i = s.pc := Nat.le_antisymm (Nat.le_of_lt_succ hi) hge
      rw [heq, hlast, hpast s.pc (Nat.le_refl _), Function.update_self,
        h.present]
      exact heffect.undoes h.undoEnabled
  · intro id
    have howns := heffect.owns id
    rw [if_pos h.undoEnabled] at howns
    have hbase := h.accounts s.pc (Nat.le_refl _) id
    rw [h.present] at hbase
    rw [Function.update_self, howns, hbase]
    have hsame : ownedBelow t.heads s.pc id = ownedBelow s.heads s.pc id :=
      ownedBelow_congr hbefore id
    show _ = owned (t.heads s.pc) id + ownedBelow t.heads s.pc id
    rw [hlast, hsame, Nat.add_comm]

theorem Session.type (h : Session s a past) (commands : List Command) :
    exists t b past', step (.type commands) s = some t ∧
      Session t b past' ∧ SamePast s.pc past past' ∧ s.pc ≤ t.pc := by
  rcases execAll_effects h.shape h.tidy h.ready commands with
    ⟨error, u, b, tokens, hrun, heffect, hready⟩
  have htyped := h.typed heffect
  obtain ⟨past', hpast'⟩ : exists past', past' =
      Function.update past (s.pc + 1) b := ⟨_, rfl⟩
  rw [<- hpast'] at htyped
  have hlast : past' (s.pc + 1) = b := by
    rw [hpast', Function.update_self]
  have hstep : step (.type commands) s = (some (error, u)).bind _ :=
    congrArg (fun r => Option.bind r _) hrun
  cases error with
  | none =>
      refine ⟨{ u with pc := u.pc + 1 }, b, past', hstep, ?_, ?_, ?_⟩
      · have hpc : u.pc + 1 = s.pc + 1 := by rw [htyped.pc]
        constructor
        · exact heffect.shape.of_eq rfl rfl rfl rfl
        · exact ⟨Nat.le_succ_of_le htyped.tidy.len_le, htyped.tidy.heads⟩
        · exact hready rfl
        · exact htyped.undoEnabled
        · show past' (u.pc + 1) = b
          rw [hpc]
          exact hlast
        · exact htyped.tidy.len_le
        · show Chain u.heads past' (u.pc + 1)
          rw [hpc]
          exact htyped.chain
        · intro i hi
          change i ≤ u.pc + 1 at hi
          rw [hpc] at hi
          rcases Nat.lt_or_ge i (s.pc + 1) with hlt | hge
          · have hle := Nat.le_of_lt_succ hlt
            rw [htyped.past_eq i hle]
            exact h.readyPast i hle
          · rw [Nat.le_antisymm hi hge, hlast]
            exact hready rfl
        · intro i hi
          change i ≤ u.pc + 1 at hi
          rw [hpc] at hi
          rcases Nat.lt_or_ge i (s.pc + 1) with hlt | hge
          · have hle := Nat.le_of_lt_succ hlt
            rw [htyped.past_eq i hle]
            intro id
            have hsame : ownedBelow u.heads i id = ownedBelow s.heads i id :=
              ownedBelow_congr
                (fun k hk => htyped.heads k (Nat.lt_of_lt_of_le hk hle)) id
            show _ = ownedBelow u.heads i id
            rw [hsame]
            exact h.accounts i hle id
          · rw [Nat.le_antisymm hi hge]
            exact htyped.accounts
      · intro i hi
        rw [htyped.past_eq i hi]
        exact Alike.refl _
      · show s.pc ≤ u.pc + 1
        rw [htyped.pc]
        exact Nat.le_succ _
  | some error =>
      have hx : Alike b (past' (s.pc + 1)) := by
        rw [hlast]
        exact Alike.refl b
      have hlen : u.len ≤ s.pc + 1 := by
        rw [<- htyped.pc]
        exact htyped.tidy.len_le
      rcases undoPop_spec (Nat.le_succ s.pc) heffect.shape htyped.chain hx
        hlen htyped.tidy.heads with ⟨t, y, hpop, hshape, halike, hpopped⟩
      refine ⟨t, y, Function.update past' s.pc y, ?_, ?_, ?_, ?_⟩
      · rw [hstep]
        show State.undoPop u.pc u = some t
        rw [htyped.pc]
        exact hpop
      · refine session_popped (s := u) ?_ ?_ ?_ htyped.undoEnabled htyped.pc
          hshape halike hpopped
        · intro i hi
          exact htyped.chain i (Nat.lt_succ_of_lt hi)
        · intro i hi
          rw [htyped.past_eq i hi]
          exact h.readyPast i hi
        · intro i hi id
          have hsame : ownedBelow u.heads i id = ownedBelow s.heads i id :=
            ownedBelow_congr
              (fun k hk => htyped.heads k (Nat.lt_of_lt_of_le hk hi)) id
          rw [hsame, htyped.past_eq i hi]
          exact h.accounts i hi id
      · intro i hi
        have hupdate : SamePast s.pc past' (Function.update past' s.pc y) :=
          samePast_update halike
        have hi' := hupdate i hi
        rw [htyped.past_eq i hi] at hi'
        exact hi'
      · have hpc : t.pc = s.pc := by
          rw [hpopped.pc, htyped.pc]
        exact Nat.le_of_eq hpc.symm

theorem Session.rubout (h : Session s a past) {n : Nat} (hn : n ≤ s.pc) :
    exists t b, step (.rubout n) s = some t ∧
      Session t b (Function.update past n b) ∧ Alike b (past n) ∧
      t.pc = n := by
  obtain ⟨u, hu⟩ : exists u : State, u = { s with pc := n } := ⟨_, rfl⟩
  have hshape : Shape u a := by
    rw [hu]
    exact h.shape.of_eq rfl rfl rfl rfl
  have hheads : u.heads = s.heads := by rw [hu]
  have hulen : u.len = s.len := by rw [hu]
  have hx : Alike a (past s.pc) := by
    rw [h.present]
    exact Alike.refl a
  have hlen : u.len ≤ s.pc := by
    rw [hulen]
    exact h.len_le
  have hempty : forall i, u.len ≤ i -> u.heads i = [] := by
    rw [hheads, hulen]
    exact h.tidy.heads
  rcases undoPop_spec hn hshape (by rw [hheads]; exact h.chain) hx hlen hempty
    with ⟨t, b, hpop, hshape', halike, hpopped⟩
  have hupc : u.pc = n := by rw [hu]
  refine ⟨t, b, ?_, ?_, halike, hpopped.pc.trans hupc⟩
  · unfold step
    dsimp only
    rw [if_pos hn, <- hu]
    exact hpop
  · refine session_popped (s := u) ?_ ?_ ?_ ?_ hupc hshape' halike hpopped
    · rw [hheads]
      exact fun i hi => h.chain i (Nat.lt_of_lt_of_le hi hn)
    · exact fun i hi => h.readyPast i (Nat.le_trans hi hn)
    · rw [hheads]
      exact fun i hi => h.accounts i (Nat.le_trans hi hn)
    · rw [hu]
      exact h.undoEnabled

/-- The contents after the closed buffers have been freed. -/
theorem Session.clear (h : Session s a past) (flag : Bool) :
    exists t b, State.undoClear { s with undoEnabled := flag } = some t ∧
      Shape t b ∧ (forall id, ¬ b.closed id) ∧ SameMembers a b ∧
      t.undoEnabled = flag ∧ t.nextBuffer = s.nextBuffer ∧ t.len = 0 ∧
      forall i, t.heads i = [] := by
  have hshape : Shape { s with undoEnabled := flag } a :=
    h.shape.of_eq rfl rfl rfl rfl
  have hcount : Accounts a (ownedBelow s.heads s.len) := by
    intro id
    have hid := h.accounts s.pc (Nat.le_refl _) id
    rw [h.present] at hid
    obtain ⟨k, hk⟩ := Nat.exists_eq_add_of_le h.len_le
    rw [hid, hk]
    exact ownedBelow_empty h.tidy.heads id
  exact undoClearFrom_spec hshape hcount rfl h.tidy.heads

theorem SameMembers.ready (h : SameMembers a b) (ha : Ready a) : Ready b := by
  intro hnone
  rw [h.focus] at hnone
  rcases ha hnone with ⟨id, hid, hcurrent, hshown⟩
  refine ⟨id, ?_, ?_, ?_⟩
  · rw [h.order]
    exact hid
  · rw [h.focus]
    exact hcurrent
  · rw [h.focus]
    exact hshown

/-- A session without a command line. -/
theorem session_blank (hshape : Shape s a) (hready : Ready a)
    (hundo : s.undoEnabled = true) (hpc : s.pc = 0) (hlen : s.len = 0)
    (hheads : forall i, s.heads i = []) (hnone : forall id, ¬ a.closed id) :
    Session s a (fun _ => a) := by
  constructor
  · exact hshape
  · exact ⟨by rw [hlen]; exact Nat.zero_le _, fun i _ => hheads i⟩
  · exact hready
  · exact hundo
  · rfl
  · rw [hlen]
    exact Nat.zero_le _
  · rw [hpc]
    intro i hi
    cases hi
  · exact fun _ _ => hready
  · rw [hpc]
    intro i hi
    rw [Nat.le_zero.mp hi]
    intro id
    exact if_neg (hnone id)

theorem Session.terminate (h : Session s a past) :
    exists t b, step .terminate s = some t ∧ Session t b (fun _ => b) ∧
      (forall id, ¬ b.closed id) ∧ SameMembers a b := by
  rcases h.clear s.undoEnabled with
    ⟨t, b, hrun, hshape, hnone, hmembers, hundo, _, hlen, hheads⟩
  refine ⟨{ t with pc := 0 }, b, ?_, ?_, hnone, hmembers⟩
  · unfold step
    change (State.undoClear s).bind _ = _
    change State.undoClear s = some t at hrun
    rw [hrun]
    rfl
  · exact session_blank (hshape.of_eq rfl rfl rfl rfl)
      (hmembers.ready h.ready) (hundo.trans h.undoEnabled) rfl hlen hheads
      hnone

/-!
## The beginning
-/

inductive Reaches : State -> Prop where
  | start {profile : List Command} {s : State} :
      start profile = some (none, s) -> Reaches s
  | step {event : Event} {s t : State} :
      Reaches s -> step event s = some t -> Reaches t

theorem Session.step (h : Session s a past) (event : Event) :
    exists t b past', step event s = some t ∧ Session t b past' := by
  cases event with
  | type commands =>
      rcases h.type commands with ⟨t, b, past', hrun, hsession, _⟩
      exact ⟨t, b, past', hrun, hsession⟩
  | rubout n =>
      rcases Nat.lt_or_ge s.pc n with hlt | hge
      · refine ⟨s, a, past, ?_, h⟩
        unfold BufferRing.step
        exact if_neg (Nat.not_le_of_lt hlt)
      · rcases h.rubout hge with ⟨t, b, hrun, hsession, _⟩
        exact ⟨t, b, _, hrun, hsession⟩
  | terminate =>
      rcases h.terminate with ⟨t, b, hrun, hsession, _⟩
      exact ⟨t, b, _, hrun, hsession⟩

/-- The state after the start. -/
def started : State := (start []).elim blank Prod.snd

/-- `EB` opens a file, and then `1EF` closes the unnamed buffer. -/
def closing : List Command :=
  [.editFile (some { resolved := "/a", regular := false, failure := none }),
    .close (some 1) false false
      { given := false, resolved := "", failure := none }]

end BufferRing
end SciTECO
