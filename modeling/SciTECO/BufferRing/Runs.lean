import SciTECO.BufferRing.Commands

/-!
# Runs

In every run the links stand for a list of buffers, and every buffer that has
not been freed is in the ring or is owned by one undo token.  Rubbing out leads
back to the ring and the document that were there when a character was typed.
-/

namespace SciTECO
namespace BufferRing

open TailQueue

variable {s t : State} {a b x : Contents} {past : Nat -> Contents}

/-!
## Undoing positions
-/

/-- The tokens of each position lead back to the contents before it. -/
def Chain (heads : Nat -> List Token) (past : Nat -> Contents) (top : Nat) :
    Prop :=
  forall i, i < top -> Undoes (past i) (heads i) (past (i + 1))

/-- Positions have been taken off `teco_undo_heads`. -/
structure Popped (n : Nat) (s t : State) : Prop where
  undoEnabled : t.undoEnabled = s.undoEnabled
  pc : t.pc = s.pc
  before : forall i, i < n -> t.heads i = s.heads i
  behind : forall i, n ≤ i -> t.heads i = []
  len_le : t.len ≤ n
  tidy : forall i, t.len ≤ i -> t.heads i = []

/-- Nothing happens at positions without tokens. -/
theorem alike_of_empty {heads : Nat -> List Token} {n k : Nat}
    (hchain : Chain heads past (n + k)) (hempty : forall i, n ≤ i ->
      heads i = []) (hx : Alike x (past (n + k))) : Alike x (past n) := by
  induction k with
  | zero => exact hx
  | succ k ih =>
      have hlast := hchain (n + k) (Nat.lt_succ_self _)
      rw [hempty (n + k) (Nat.le_add_right n k)] at hlast
      rcases hlast x hx with ⟨y, hy, halike⟩
      cases hy
      exact ih (fun i hi => hchain i (Nat.lt_succ_of_lt hi)) halike

theorem undoPopFrom_spec {n k : Nat} (hn : n ≤ k) (h : Shape s x)
    (hchain : Chain s.heads past k) (hx : Alike x (past k))
    (hlen : s.len = k) (hempty : forall i, k ≤ i -> s.heads i = []) :
    exists t y, State.undoPopFrom n k s = some t ∧ Shape t y ∧
      Alike y (past n) ∧ Popped n s t := by
  induction k generalizing s x with
  | zero =>
      have hzero : n = 0 := Nat.le_zero.mp hn
      subst hzero
      exact ⟨s, x, rfl, h, hx, rfl, rfl, fun _ _ => rfl, hempty,
        Nat.le_of_eq hlen, fun i _ => hempty i (Nat.zero_le i)⟩
  | succ k ih =>
      unfold State.undoPopFrom
      split
      case isTrue hle =>
          rcases hchain k (Nat.lt_succ_self k) x hx with ⟨y, hy, halike⟩
          have hremoved : Shape (s.removeHead k) x :=
            h.of_eq rfl rfl rfl rfl
          rcases runTokens_spec hremoved hy with ⟨t, ht, hshape, haround⟩
          have hheads : forall i, i ≠ k -> t.heads i = s.heads i := by
            intro i hi
            rw [haround.heads]
            exact Function.update_of_ne hi _ _
          have hchain' : Chain t.heads past k := by
            intro i hi
            rw [hheads i (Nat.ne_of_lt hi)]
            exact hchain i (Nat.lt_succ_of_lt hi)
          have hempty' : forall i, k ≤ i -> t.heads i = [] := by
            intro i hi
            by_cases heq : i = k
            · rw [heq, haround.heads]
              exact Function.update_self _ _ _
            · rw [hheads i heq]
              exact hempty i (Nat.lt_of_le_of_ne hi (Ne.symm heq))
          rcases ih hle hshape hchain' halike haround.len hempty' with
            ⟨u, z, hu, hshape', hz, hpopped⟩
          refine ⟨u, z, ?_, hshape', hz,
            hpopped.undoEnabled.trans haround.undoEnabled,
            hpopped.pc.trans haround.pc, ?_, hpopped.behind,
            hpopped.len_le, hpopped.tidy⟩
          · rw [ht]
            exact hu
          · intro i hi
            rw [hpopped.before i hi]
            exact hheads i (Nat.ne_of_lt (Nat.lt_of_lt_of_le hi hle))
      case isFalse hnot =>
          have heq : n = k + 1 := by omega
          subst heq
          exact ⟨s, x, rfl, h, hx, rfl, rfl, fun _ _ => rfl, hempty,
            Nat.le_of_eq hlen, fun i hi => hempty i (hlen ▸ hi)⟩

theorem undoPopFrom_nothing {n k : Nat} (h : k ≤ n) :
    State.undoPopFrom n k s = some s := by
  cases k with
  | zero => rfl
  | succ k =>
      unfold State.undoPopFrom
      rw [if_neg (Nat.not_le_of_lt h)]

/-- `teco_undo_pop()`. -/
theorem undoPop_spec {n top : Nat} (hn : n ≤ top) (h : Shape s x)
    (hchain : Chain s.heads past top) (hx : Alike x (past top))
    (hlen : s.len ≤ top) (hempty : forall i, s.len ≤ i -> s.heads i = []) :
    exists t y, State.undoPop n s = some t ∧ Shape t y ∧
      Alike y (past n) ∧ Popped n s t := by
  unfold State.undoPop
  rcases Nat.le_total s.len n with hle | hle
  · obtain ⟨k, rfl⟩ := Nat.exists_eq_add_of_le hn
    have hempty' : forall i, n ≤ i -> s.heads i = [] :=
      fun i hi => hempty i (Nat.le_trans hle hi)
    exact ⟨s, x, undoPopFrom_nothing hle, h,
      alike_of_empty hchain hempty' hx, rfl, rfl, fun _ _ => rfl, hempty',
      hle, hempty⟩
  · obtain ⟨k, rfl⟩ := Nat.exists_eq_add_of_le hlen
    refine undoPopFrom_spec hle h ?_ (alike_of_empty hchain hempty hx) rfl
      hempty
    intro i hi
    exact hchain i (Nat.lt_of_lt_of_le hi (Nat.le_add_right _ _))

/-!
## Discarding positions
-/

/-- How often a buffer is owned by the tokens of the first positions. -/
def ownedBelow (heads : Nat -> List Token) : Nat -> BufferId -> Nat
  | 0, _ => 0
  | k + 1, id => owned (heads k) id + ownedBelow heads k id

theorem ownedBelow_congr {heads heads' : Nat -> List Token} {k : Nat}
    (h : forall i, i < k -> heads i = heads' i) (id : BufferId) :
    ownedBelow heads k id = ownedBelow heads' k id := by
  induction k with
  | zero => rfl
  | succ k ih =>
      unfold ownedBelow
      rw [h k (Nat.lt_succ_self k),
        ih (fun i hi => h i (Nat.lt_succ_of_lt hi))]

theorem ownedBelow_empty {heads : Nat -> List Token} {n k : Nat}
    (h : forall i, n ≤ i -> heads i = []) (id : BufferId) :
    ownedBelow heads (n + k) id = ownedBelow heads n id := by
  induction k with
  | zero => rfl
  | succ k ih =>
      show owned (heads (n + k)) id + ownedBelow heads (n + k) id = _
      rw [h (n + k) (Nat.le_add_right n k), ih]
      exact Nat.zero_add _

/-- The closed buffers are the ones that tokens own. -/
def Accounts (a : Contents) (count : BufferId -> Nat) : Prop :=
  forall id, (if a.closed id then 1 else 0) = count id

/-- The buffers of the ring are as they have been. -/
structure SameMembers (a b : Contents) : Prop where
  order : b.order = a.order
  focus : b.focus = a.focus
  buffers : forall id, id ∈ a.order -> b.buffers id = a.buffers id

theorem SameMembers.refl (a : Contents) : SameMembers a a :=
  ⟨rfl, rfl, fun _ _ => rfl⟩

theorem SameMembers.trans {c : Contents} (h : SameMembers a b)
    (h' : SameMembers b c) : SameMembers a c := by
  refine ⟨h'.order.trans h.order, h'.focus.trans h.focus, ?_⟩
  intro id hid
  rw [h'.buffers id (by rw [h.order]; exact hid), h.buffers id hid]

theorem discardTokens_spec {tokens : List Token} {rest : BufferId -> Nat}
    (h : Shape s a)
    (hcount : forall id,
      (if a.closed id then 1 else 0) = owned tokens id + rest id) :
    exists t b, State.discardTokens tokens s = some t ∧ Shape t b ∧
      Accounts b rest ∧ SameMembers a b ∧ Around s t := by
  induction tokens generalizing s a with
  | nil =>
      refine ⟨s, a, rfl, h, ?_, SameMembers.refl a, Around.refl s⟩
      intro id
      have hid := hcount id
      have hzero : owned [] id = 0 := rfl
      rw [hzero, Nat.zero_add] at hid
      exact hid
  | cons token tokens ih =>
      have hother : (forall id, token ≠ .reinsert id) ->
          State.discardToken token s = some s ->
          exists t b, State.discardTokens (token :: tokens) s = some t ∧
            Shape t b ∧ Accounts b rest ∧ SameMembers a b ∧ Around s t := by
        intro hne hrun
        have hcount' : forall id,
            (if a.closed id then 1 else 0) = owned tokens id + rest id := by
          intro id
          have hid := hcount id
          have hskip : owned (token :: tokens) id = owned tokens id := by
            unfold owned
            rw [List.count_cons_of_ne (hne id)]
          rw [hskip] at hid
          exact hid
        rcases ih h hcount' with ⟨t, b, ht, hrest⟩
        refine ⟨t, b, ?_, hrest⟩
        unfold State.discardTokens
        rw [hrun]
        exact ht
      cases token with
      | reinsert id =>
          have hid := hcount id
          have hfirst : owned (.reinsert id :: tokens) id =
              owned tokens id + 1 := List.count_cons_self
          rw [hfirst] at hid
          have hclosed : a.closed id := by
            by_contra hnot
            rw [if_neg hnot] at hid
            omega
          rcases h.free hclosed.2 hclosed.1 with ⟨t, ht, hshape, rfl⟩
          have hcount' : forall k,
              (if (a.setBuffer id none).closed k then 1 else 0) =
                owned tokens k + rest k := by
            intro k
            by_cases hk : k = id
            · have hgone : ¬ (a.setBuffer id none).closed k := by
                intro hclosed'
                have hsome := hclosed'.1
                simp [Contents.setBuffer, hk] at hsome
              rw [if_pos hclosed] at hid
              rw [if_neg hgone, hk]
              omega
            · have hiff : (a.setBuffer id none).closed k <-> a.closed k := by
                simp [Contents.closed, Contents.setBuffer, hk]
              have hkcount := hcount k
              have hskip : owned (.reinsert id :: tokens) k =
                  owned tokens k := by
                unfold owned
                refine List.count_cons_of_ne ?_
                intro heq
                injection heq with heq
                exact hk heq.symm
              rw [hskip] at hkcount
              simp only [hiff]
              exact hkcount
          rcases ih hshape hcount' with
            ⟨u, b, hu, hshape', haccounts, hmembers, haround⟩
          refine ⟨u, b, ?_, hshape', haccounts, ?_, ?_⟩
          · unfold State.discardTokens State.discardToken
            dsimp only
            rw [ht]
            exact hu
          · have hfreed : SameMembers a (a.setBuffer id none) := by
              refine ⟨rfl, rfl, ?_⟩
              intro k hk
              have hne : k ≠ id := fun heq => hclosed.2 (heq ▸ hk)
              exact Function.update_of_ne hne _ _
            exact hfreed.trans hmembers
          · exact ⟨haround.nextBuffer, haround.undoEnabled, haround.pc,
              haround.heads, haround.len⟩
      | qregCurrent value => exact hother (fun id heq => by cases heq) rfl
      | ringCurrent value => exact hother (fun id heq => by cases heq) rfl
      | showView view => exact hother (fun id heq => by cases heq) rfl
      | infoUpdate id => exact hother (fun id heq => by cases heq) rfl
      | bufferFree id => exact hother (fun id heq => by cases heq) rfl
      | removeBuffer id => exact hother (fun id heq => by cases heq) rfl
      | dirty id value => exact hother (fun id heq => by cases heq) rfl
      | filename id value => exact hother (fun id heq => by cases heq) rfl

theorem undoClearFrom_spec {k : Nat} (h : Shape s a)
    (hcount : Accounts a (ownedBelow s.heads k)) (hlen : s.len = k)
    (hempty : forall i, k ≤ i -> s.heads i = []) :
    exists t b, State.undoClearFrom k s = some t ∧ Shape t b ∧
      (forall id, ¬ b.closed id) ∧ SameMembers a b ∧
      t.undoEnabled = s.undoEnabled ∧ t.nextBuffer = s.nextBuffer ∧
      t.len = 0 ∧ forall i, t.heads i = [] := by
  induction k generalizing s a with
  | zero =>
      refine ⟨s, a, rfl, h, ?_, SameMembers.refl a, rfl, rfl, hlen,
        fun i => hempty i (Nat.zero_le i)⟩
      intro id hclosed
      have hid := hcount id
      rw [if_pos hclosed] at hid
      cases hid
  | succ k ih =>
      have hremoved : Shape (s.removeHead k) a := h.of_eq rfl rfl rfl rfl
      rcases discardTokens_spec hremoved (fun id => hcount id) with
        ⟨t, b, ht, hshape, haccounts, hmembers, haround⟩
      have hheads : forall i, i ≠ k -> t.heads i = s.heads i := by
        intro i hi
        rw [haround.heads]
        exact Function.update_of_ne hi _ _
      have haccounts' : Accounts b (ownedBelow t.heads k) := by
        intro id
        rw [haccounts id]
        exact ownedBelow_congr
          (fun i hi => (hheads i (Nat.ne_of_lt hi)).symm) id
      have hempty' : forall i, k ≤ i -> t.heads i = [] := by
        intro i hi
        by_cases heq : i = k
        · rw [heq, haround.heads]
          exact Function.update_self _ _ _
        · rw [hheads i heq]
          exact hempty i (Nat.lt_of_le_of_ne hi (Ne.symm heq))
      rcases ih hshape haccounts' haround.len hempty' with
        ⟨u, c, hu, hshape', hnone, hmembers', hundo, hnext, hrest⟩
      refine ⟨u, c, ?_, hshape', hnone, hmembers.trans hmembers',
        hundo.trans haround.undoEnabled, hnext.trans haround.nextBuffer,
        hrest⟩
      unfold State.undoClearFrom
      rw [ht]
      exact hu

end BufferRing
end SciTECO
