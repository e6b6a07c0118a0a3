import SciTECO.Editing.Commands

/-!
# Words in the gap buffer

The text of a document is in two pieces with a gap between them.  A scan asks
for a pointer into one piece and for another one when it comes to the gap.  It
is compared with a scan over the text as one string.
-/

namespace SciTECO
namespace Editing

/-!
## The text as one string
-/

/-- Behind a word: `first` tells whether word characters are skipped first, or
the characters between words. -/
def afterWord (isWord : UInt8 -> Bool) (first : Bool) (text : Bytes) : Bytes :=
  (text.dropWhile (fun c => isWord c == first)).dropWhile
    (fun c => isWord c == !first)

/-- Behind some words, and whether there is text left in front of each of
them. -/
def afterWords (isWord : UInt8 -> Bool) (first : Bool) :
    Nat -> Bytes -> Bool × Bytes
  | 0, text => (true, text)
  | _ + 1, [] => (false, [])
  | n + 1, c :: text =>
      afterWords isWord first n (afterWord isWord first (c :: text))

/-- The success and the position of a movement by words in a string. -/
def flatWords (wchars text : Bytes) (pos : Nat) (n : TecoInt)
    (endOfWord : Bool) : Bool × Nat :=
  let isWord := fun c => wchars.contains c
  if 0 ≤ n.toInt then
    let result := afterWords isWord (!endOfWord) n.toInt.natAbs (text.drop pos)
    (result.1, text.length - result.2.length)
  else
    let result := afterWords isWord endOfWord n.toInt.natAbs
      (text.take pos).reverse
    (result.1, result.2.length)

/-!
## The scan
-/

/-- A position in the text and a pointer into a range of it. -/
structure Cursor where
  pos : Nat
  buffer : Bytes
  p : Nat

/-- `SCI_GETRANGEPOINTER`. -/
def rangePointer (text : Bytes) (start len : Nat) : Bytes :=
  (text.drop start).take len

/-- The next character, with the cursor in front of it and behind it. -/
def lookForward (text : Bytes) (gap : Nat) (s : Cursor) :
    Except Fault (Option (UInt8 × Cursor × Cursor)) := do
  if s.pos = text.length then
    -- end of document
    pure none
  else
    let s <-
      if s.buffer.length ≤ s.p then
        if s.pos = gap then
          pure { s with
            buffer := rangePointer text gap (text.length - gap), p := 0 }
        else .error Fault.assertion
      else pure s
    match s.buffer[s.p]? with
    | none => .error Fault.outOfBounds
    | some c => pure (some (c, s, { s with pos := s.pos + 1, p := s.p + 1 }))

/-- The previous character, with the cursor behind it and in front of it. -/
def lookBackward (text : Bytes) (gap : Nat) (s : Cursor) :
    Except Fault (Option (UInt8 × Cursor × Cursor)) := do
  if s.pos = 0 then
    -- beginning of document
    pure none
  else
    let s <-
      if s.p = 0 then
        if s.pos = gap then
          pure { s with buffer := rangePointer text 0 s.pos, p := s.pos }
        else .error Fault.assertion
      else pure s
    match s.buffer[s.p - 1]? with
    | none => .error Fault.outOfBounds
    | some c => pure (some (c, s, { s with pos := s.pos - 1, p := s.p - 1 }))

section

variable (look : Cursor -> Except Fault (Option (UInt8 × Cursor × Cursor)))
variable (isWord : UInt8 -> Bool) (first : Bool)

/-- Skip one word.  The result tells whether the document has come to its
end. -/
def skipWordLoop : Nat -> Bool -> Cursor -> Except Fault (Bool × Cursor)
  | 0, _, _ => .error Fault.outOfFuel
  | fuel + 1, skipWord, s => do
      match <- look s with
      | none => pure (true, s)
      | some (c, here, next) =>
          if (!isWord c) == skipWord then
            if skipWord ≠ first then pure (false, here)
            else skipWordLoop fuel (!skipWord) here
          else skipWordLoop fuel skipWord next

/-- Skip words. -/
def skipWords (fuel : Nat) : Nat -> Cursor -> Except Fault (Bool × Nat)
  | 0, s => pure (true, s.pos)
  | n + 1, s => do
      let (atEnd, s) <- skipWordLoop look isWord first fuel first s
      if atEnd then pure (n = 0, s.pos)
      else skipWords fuel n s

end

/-- `teco_find_words()` in a document with a gap.  Going forward, words are
skipped first unless `endOfWord` is set, and it is the other way round going
backward. -/
def gapFindWords (fuel : Nat) (wchars text : Bytes) (gap pos : Nat)
    (n : TecoInt) (endOfWord : Bool) : Except Fault (Bool × Nat) :=
  let isWord := fun c => wchars.contains c
  if n = 0 then pure (true, pos)
  else if 0 < n.toInt then
    let rangeLen := if pos < gap then gap - pos else text.length - pos
    if rangeLen = 0 then pure (false, pos)
    else
      skipWords (lookForward text gap) isWord (!endOfWord) fuel n.toInt.natAbs
        { pos := pos, buffer := rangePointer text pos rangeLen, p := 0 }
  else
    let rangeLen := if gap < pos then pos - gap else pos
    if rangeLen = 0 then pure (false, pos)
    else
      skipWords (lookBackward text gap) isWord endOfWord fuel n.toInt.natAbs
        { pos := pos, buffer := rangePointer text (pos - rangeLen) rangeLen
          p := rangeLen }

/-!
## Scans of strings
-/

/-- The cursors of a scan stand for what is left to be scanned. -/
structure Reads
    (look : Cursor -> Except Fault (Option (UInt8 × Cursor × Cursor)))
    (rest : Cursor -> Bytes -> Prop) : Prop where
  none : forall s, rest s [] -> look s = .ok none
  some : forall s c text, rest s (c :: text) -> exists here next,
    look s = .ok (some (c, here, next)) ∧
      rest here (c :: text) ∧ rest next text

section

variable {look : Cursor -> Except Fault (Option (UInt8 × Cursor × Cursor))}
variable {rest : Cursor -> Bytes -> Prop} {isWord : UInt8 -> Bool}
variable {first : Bool}

/-- What the loop over one word still skips. -/
def phaseRest (isWord : UInt8 -> Bool) (first skipWord : Bool)
    (text : Bytes) : Bytes :=
  if skipWord = first then afterWord isWord first text
  else text.dropWhile (fun c => isWord c == !first)

theorem not_first (first : Bool) : ¬ (!first) = first := by
  cases first <;> decide

theorem phaseRest_nil (skipWord : Bool) :
    phaseRest isWord first skipWord [] = [] := by
  unfold phaseRest afterWord
  split <;> rfl

/-- A character of the phase is skipped. -/
theorem phaseRest_skip {skipWord : Bool} {c : UInt8} {text : Bytes}
    (hc : isWord c = skipWord) :
    phaseRest isWord first skipWord (c :: text) =
      phaseRest isWord first skipWord text := by
  unfold phaseRest afterWord
  split
  · next hfirst =>
      have hskip : (isWord c == first) = true := by
        rw [hc, hfirst, beq_self_eq_true]
      rw [List.dropWhile_cons, hskip, if_pos rfl]
  · next hfirst =>
      have hskip : (isWord c == !first) = true := by
        rw [hc, Bool.eq_not.mpr hfirst, beq_self_eq_true]
      rw [List.dropWhile_cons, hskip, if_pos rfl]

/-- The first character of the other kind changes the phase. -/
theorem phaseRest_change {c : UInt8} {text : Bytes} (hc : isWord c = !first) :
    phaseRest isWord first first (c :: text) =
      phaseRest isWord first (!first) (c :: text) := by
  have hstop : (isWord c == first) = false := by
    rw [hc]
    cases first <;> rfl
  unfold phaseRest afterWord
  rw [if_pos rfl, if_neg (not_first first), List.dropWhile_cons, hstop,
    if_neg (by decide)]

/-- The first character of the next word ends the loop. -/
theorem phaseRest_stop {c : UInt8} {text : Bytes} (hc : isWord c = first) :
    phaseRest isWord first (!first) (c :: text) = c :: text := by
  have hstop : (isWord c == !first) = false := by
    rw [hc]
    cases first <;> rfl
  unfold phaseRest
  rw [if_neg (not_first first), List.dropWhile_cons, hstop,
    if_neg (by decide)]

/-- The fuel is enough for each character and the change of the phase. -/
theorem skipWordLoop_reads (h : Reads look rest) (fuel : Nat) :
    forall (skipWord : Bool) (s : Cursor) (text : Bytes), rest s text ->
      text.length + (if skipWord = first then 1 else 0) < fuel ->
      exists t, skipWordLoop look isWord first fuel skipWord s =
          .ok (decide (phaseRest isWord first skipWord text = []), t) ∧
        rest t (phaseRest isWord first skipWord text) := by
  induction fuel with
  | zero =>
      intro skipWord s text _ hfuel
      exact absurd hfuel (Nat.not_lt_zero _)
  | succ fuel ih =>
      intro skipWord s text hrest hfuel
      cases text with
      | nil =>
          refine ⟨s, ?_, ?_⟩
          · unfold skipWordLoop
            rw [h.none s hrest, phaseRest_nil]
            rfl
          · rw [phaseRest_nil]
            exact hrest
      | cons c text =>
          rcases h.some s c text hrest with ⟨here, next, hlook, hhere, hnext⟩
          have hloop : skipWordLoop look isWord first (fuel + 1) skipWord s =
              if (!isWord c) == skipWord then
                if skipWord ≠ first then .ok (false, here)
                else skipWordLoop look isWord first fuel (!skipWord) here
              else skipWordLoop look isWord first fuel skipWord next := by
            rw [skipWordLoop, hlook]
            rfl
          rw [List.length_cons] at hfuel
          rw [hloop]
          by_cases hkind : isWord c = skipWord
          · have hskip : ((!isWord c) == skipWord) = false := by
              rw [hkind]
              cases skipWord <;> rfl
            rw [hskip, if_neg (by decide), phaseRest_skip hkind]
            exact ih skipWord next text hnext (by omega)
          · have hchange : isWord c = !skipWord := Bool.eq_not.mpr hkind
            have hskip : ((!isWord c) == skipWord) = true := by
              rw [hchange, Bool.not_not, beq_self_eq_true]
            rw [hskip, if_pos rfl]
            by_cases hfirst : skipWord = first
            · rw [hfirst] at hchange hfuel ⊢
              rw [if_neg (fun hne => hne rfl), phaseRest_change hchange]
              refine ih (!first) here (c :: text) hhere ?_
              rw [if_neg (not_first first), List.length_cons]
              rw [if_pos rfl] at hfuel
              omega
            · have hlast : skipWord = !first := Bool.eq_not.mpr hfirst
              have hstop : isWord c = first := by
                rw [hchange, hlast, Bool.not_not]
              rw [if_pos hfirst, hlast, phaseRest_stop hstop]
              exact ⟨here, rfl, hhere⟩

theorem skipWords_reads (h : Reads look rest) {left : Bytes -> Nat}
    (hpos : forall s text, rest s text -> s.pos = left text) {fuel : Nat}
    (n : Nat) :
    forall (s : Cursor) (text : Bytes), rest s text -> text ≠ [] ->
      text.length + 1 < fuel ->
      skipWords look isWord first fuel n s =
        .ok ((afterWords isWord first n text).1,
          left (afterWords isWord first n text).2) := by
  induction n with
  | zero =>
      intro s text hrest _ _
      change Except.ok (true, s.pos) = _
      rw [hpos s text hrest]
      rfl
  | succ n ih =>
      intro s text hrest hne hfuel
      have hphase : phaseRest isWord first first text =
          afterWord isWord first text := if_pos rfl
      rcases @skipWordLoop_reads look rest isWord first h fuel first s text
        hrest (by rw [if_pos rfl]; exact hfuel) with ⟨t, hloop, ht⟩
      rw [hphase] at hloop ht
      have hwords : afterWords isWord first (n + 1) text =
          afterWords isWord first n (afterWord isWord first text) := by
        cases text with
        | nil => exact absurd rfl hne
        | cons c text => rfl
      have hstep : skipWords look isWord first fuel (n + 1) s =
          if afterWord isWord first text = [] then .ok (decide (n = 0), t.pos)
          else skipWords look isWord first fuel n t := by
        rw [skipWords, hloop]
        change (if decide _ = true then _ else _) = _
        simp only [decide_eq_true_eq]
        rfl
      rw [hstep, hwords]
      split
      · next hend =>
          rw [hend] at ht ⊢
          rw [hpos t [] ht]
          cases n <;> rfl
      · next hmore =>
          have hlength : (afterWord isWord first text).length ≤ text.length :=
            Nat.le_trans (List.dropWhile_sublist _).length_le
              (List.dropWhile_sublist _).length_le
          exact ih t _ ht hmore (by omega)

end

/-!
## Forward
-/

section

variable {text : Bytes} {gap : Nat}

/-- The cursor is in the piece in front of the gap, or in the one behind it. -/
structure ForwardRest (text : Bytes) (gap : Nat) (s : Cursor) (rest : Bytes) :
    Prop where
  inside : s.pos ≤ text.length
  rest_eq : rest = text.drop s.pos
  piece : s.pos ≤ gap ∧ s.buffer.drop s.p = (text.take gap).drop s.pos ∨
    gap ≤ s.pos ∧ s.buffer.drop s.p = text.drop s.pos

theorem drop_cons {l l' : Bytes} {k : Nat} {c : UInt8}
    (h : l.drop k = c :: l') : l[k]? = some c ∧ l.drop (k + 1) = l' := by
  constructor
  · rw [<- List.head?_drop, h]
    rfl
  · rw [<- List.tail_drop, h]
    rfl

/-- The character is in the range which has been asked for. -/
theorem ForwardRest.look {s : Cursor} {c : UInt8} {rest piece : Bytes}
    (h : ForwardRest text gap s (c :: rest))
    (hpiece : s.buffer.drop s.p = c :: piece) :
    lookForward text gap s =
        .ok (some (c, s, { s with pos := s.pos + 1, p := s.p + 1 })) ∧
      ForwardRest text gap { s with pos := s.pos + 1, p := s.p + 1 } rest := by
  have hrest := drop_cons h.rest_eq.symm
  have hbuffer := drop_cons hpiece
  have hlt : s.pos < text.length := (List.getElem?_eq_some_iff.mp hrest.1).1
  have hp : s.p < s.buffer.length :=
    (List.getElem?_eq_some_iff.mp hbuffer.1).1
  constructor
  · unfold lookForward
    rw [if_neg (Nat.ne_of_lt hlt), if_neg (Nat.not_le.mpr hp)]
    change (match s.buffer[s.p]? with | none => _ | some c => _) = _
    rw [hbuffer.1]
    rfl
  · refine ⟨hlt, hrest.2.symm, ?_⟩
    rcases h.piece with ⟨hle, heq⟩ | ⟨hge, heq⟩
    · have hfront := drop_cons (heq.symm.trans hpiece)
      have hgap : s.pos < gap := by
        have hlength := (List.getElem?_eq_some_iff.mp hfront.1).1
        rw [List.length_take] at hlength
        omega
      refine .inl ⟨hgap, ?_⟩
      rw [hfront.2]
      exact hbuffer.2
    · refine .inr ⟨Nat.le_succ_of_le hge, ?_⟩
      have hback := drop_cons (heq.symm.trans hpiece)
      rw [hback.2]
      exact hbuffer.2

theorem reads_forward (hgap : gap ≤ text.length) :
    Reads (lookForward text gap) (ForwardRest text gap) := by
  constructor
  · intro s h
    have hend : s.pos = text.length :=
      Nat.le_antisymm h.inside (List.drop_eq_nil_iff.mp h.rest_eq.symm)
    unfold lookForward
    rw [if_pos hend]
    rfl
  · intro s c rest h
    have hrest := drop_cons h.rest_eq.symm
    have hlt : s.pos < text.length := (List.getElem?_eq_some_iff.mp hrest.1).1
    cases hbuffer : s.buffer.drop s.p with
    | cons b piece =>
        have hb : b = c := by
          rcases h.piece with ⟨hle, heq⟩ | ⟨hge, heq⟩
          · have hfront := drop_cons (heq.symm.trans hbuffer)
            have hget := hfront.1
            rw [List.getElem?_take] at hget
            split at hget
            · exact Option.some.inj (hget.symm.trans hrest.1)
            · cases hget
          · have hback := drop_cons (heq.symm.trans hbuffer)
            exact Option.some.inj (hback.1.symm.trans hrest.1)
        rw [hb] at hbuffer
        have hlook := h.look hbuffer
        exact ⟨s, _, hlook.1, h, hlook.2⟩
    | nil =>
        have hp : s.buffer.length ≤ s.p := List.drop_eq_nil_iff.mp hbuffer
        have hpos : s.pos = gap := by
          rcases h.piece with ⟨hle, heq⟩ | ⟨hge, heq⟩
          · rw [hbuffer] at heq
            have hlength := List.drop_eq_nil_iff.mp heq.symm
            rw [List.length_take] at hlength
            omega
          · rw [hbuffer] at heq
            have hlength := List.drop_eq_nil_iff.mp heq.symm
            omega
        let t : Cursor := { s with
          buffer := rangePointer text gap (text.length - gap), p := 0 }
        have hpiece : t.buffer.drop t.p = c :: rest := by
          change (rangePointer text gap (text.length - gap)).drop 0 = _
          rw [List.drop_zero, rangePointer, List.take_of_length_le
            (Nat.le_of_eq List.length_drop), h.rest_eq, hpos]
        have ht : ForwardRest text gap t (c :: rest) := by
          refine ⟨h.inside, h.rest_eq, .inr ⟨Nat.le_of_eq hpos.symm, ?_⟩⟩
          rw [hpiece, h.rest_eq]
        have hlook := ht.look hpiece
        have hrefill : lookForward text gap s = lookForward text gap t := by
          have htp : ¬ t.buffer.length ≤ t.p := by
            have hlength := congrArg List.length hpiece
            rw [List.length_drop, List.length_cons] at hlength
            omega
          unfold lookForward
          rw [if_neg (Nat.ne_of_lt hlt), if_pos hp, if_pos hpos,
            if_neg (Nat.ne_of_lt hlt), if_neg htp]
        exact ⟨t, _, hrefill.trans hlook.1, ht, hlook.2⟩

/-!
## Backward
-/

/-- The cursor is in the piece behind the gap, or in the one in front of it. -/
structure BackwardRest (text : Bytes) (gap : Nat) (s : Cursor) (rest : Bytes) :
    Prop where
  inside : s.pos ≤ text.length
  pointer : s.p ≤ s.buffer.length
  rest_eq : rest = (text.take s.pos).reverse
  piece : gap ≤ s.pos ∧ s.buffer.take s.p = (text.take s.pos).drop gap ∨
    s.pos ≤ gap ∧ s.buffer.take s.p = text.take s.pos

theorem take_snoc {l l' : Bytes} {k : Nat} {c : UInt8} (hk : k ≤ l.length)
    (h : l.take k = l' ++ [c]) :
    0 < k ∧ l[k - 1]? = some c ∧ l.take (k - 1) = l' := by
  have hlength := congrArg List.length h
  rw [List.length_take, List.length_append, List.length_singleton] at hlength
  have hpos : k - 1 = l'.length := by omega
  refine ⟨by omega, ?_, ?_⟩
  · have hget : (l.take k)[k - 1]? = some c := by
      rw [h, hpos, List.getElem?_append_right (Nat.le_refl _), Nat.sub_self]
      rfl
    rwa [List.getElem?_take_of_lt (by omega)] at hget
  · have htake := congrArg (List.take (k - 1)) h
    rw [List.take_take, Nat.min_eq_left (Nat.sub_le k 1), hpos,
      List.take_left] at htake
    rw [hpos, htake]

theorem BackwardRest.look {s : Cursor} {c : UInt8} {rest piece : Bytes}
    (h : BackwardRest text gap s (c :: rest))
    (hpiece : s.buffer.take s.p = piece ++ [c]) :
    lookBackward text gap s =
        .ok (some (c, s, { s with pos := s.pos - 1, p := s.p - 1 })) ∧
      BackwardRest text gap { s with pos := s.pos - 1, p := s.p - 1 }
        rest := by
  have htake : text.take s.pos = rest.reverse ++ [c] := by
    rw [<- List.reverse_cons, h.rest_eq, List.reverse_reverse]
  have hrest := take_snoc h.inside htake
  have hbuffer := take_snoc h.pointer hpiece
  constructor
  · unfold lookBackward
    rw [if_neg (Nat.pos_iff_ne_zero.mp hrest.1),
      if_neg (Nat.pos_iff_ne_zero.mp hbuffer.1)]
    change (match s.buffer[s.p - 1]? with | none => _ | some c => _) = _
    rw [hbuffer.2.1]
    rfl
  · refine ⟨Nat.le_trans (Nat.sub_le _ _) h.inside,
      Nat.le_trans (Nat.sub_le _ _) h.pointer, ?_, ?_⟩
    · change rest = (text.take (s.pos - 1)).reverse
      rw [hrest.2.2, List.reverse_reverse]
    · change gap ≤ s.pos - 1 ∧ s.buffer.take (s.p - 1) =
          (text.take (s.pos - 1)).drop gap ∨
        s.pos - 1 ≤ gap ∧ s.buffer.take (s.p - 1) = text.take (s.pos - 1)
      rw [hrest.2.2, hbuffer.2.2]
      rcases h.piece with ⟨hge, heq⟩ | ⟨hle, heq⟩
      · rw [hpiece, htake] at heq
        have hlength := congrArg List.length heq
        have htext := congrArg List.length htake
        rw [List.length_drop, List.length_append, List.length_append,
          List.length_singleton] at hlength
        rw [List.length_take, List.length_append, List.length_singleton]
          at htext
        have hinside := h.inside
        rw [List.drop_append_of_le_length (by omega)] at heq
        exact .inl ⟨by omega, List.append_cancel_right heq⟩
      · rw [hpiece, htake] at heq
        exact .inr ⟨Nat.le_trans (Nat.sub_le _ _) hle,
          List.append_cancel_right heq⟩

theorem reads_backward :
    Reads (lookBackward text gap) (BackwardRest text gap) := by
  constructor
  · intro s h
    have hlength := congrArg List.length h.rest_eq
    rw [List.length_reverse, List.length_take, List.length_nil] at hlength
    have hinside := h.inside
    unfold lookBackward
    rw [if_pos (by omega)]
    rfl
  · intro s c rest h
    have htake : text.take s.pos = rest.reverse ++ [c] := by
      rw [<- List.reverse_cons, h.rest_eq, List.reverse_reverse]
    have hrest := take_snoc h.inside htake
    rcases List.eq_nil_or_concat (s.buffer.take s.p) with hnil | ⟨piece, b, hb⟩
    · have hinside := h.inside
      have hpointer := h.pointer
      have hp : s.p = 0 := by
        have hlength := congrArg List.length hnil
        rw [List.length_take, List.length_nil] at hlength
        omega
      have hpos : s.pos = gap := by
        rcases h.piece with ⟨hge, heq⟩ | ⟨hle, heq⟩
        · rw [hnil] at heq
          have hlength := List.drop_eq_nil_iff.mp heq.symm
          rw [List.length_take] at hlength
          omega
        · rw [hnil, htake] at heq
          exact absurd heq.symm (List.append_ne_nil_of_right_ne_nil _
            (List.cons_ne_nil c []))
      let t : Cursor := { s with
        buffer := rangePointer text 0 s.pos, p := s.pos }
      have hbuffer : t.buffer = text.take s.pos := rfl
      have hfull : t.buffer.take t.p = text.take s.pos := by
        rw [hbuffer]
        exact List.take_of_length_le (List.length_take_le _ _)
      have ht : BackwardRest text gap t (c :: rest) := by
        refine ⟨h.inside, ?_, h.rest_eq, .inr ⟨Nat.le_of_eq hpos, hfull⟩⟩
        exact Nat.le_of_eq (List.length_take_of_le h.inside).symm
      have hlook := ht.look (hfull.trans htake)
      have hrefill : lookBackward text gap s = lookBackward text gap t := by
        unfold lookBackward
        rw [if_neg (Nat.pos_iff_ne_zero.mp hrest.1), if_pos hp, if_pos hpos,
          if_neg (Nat.pos_iff_ne_zero.mp hrest.1),
          if_neg (Nat.pos_iff_ne_zero.mp hrest.1)]
      exact ⟨t, _, hrefill.trans hlook.1, ht, hlook.2⟩
    · rw [List.concat_eq_append] at hb
      have hbc : b = c := by
        have hlast : (text.take s.pos).getLast? = some c := by
          rw [htake]
          exact List.getLast?_concat
        have hlast' : (s.buffer.take s.p).getLast? = some b := by
          rw [hb]
          exact List.getLast?_concat
        rcases h.piece with ⟨hge, heq⟩ | ⟨hle, heq⟩
        · rw [heq, List.getLast?_drop] at hlast'
          split at hlast'
          · cases hlast'
          · exact Option.some.inj (hlast'.symm.trans hlast)
        · rw [heq] at hlast'
          exact Option.some.inj (hlast'.symm.trans hlast)
      rw [hbc] at hb
      have hlook := h.look hb
      exact ⟨s, _, hlook.1, h, hlook.2⟩

/-!
## The document
-/

/-- The position of the gap does not matter. -/
theorem gapFindWords_flat {fuel pos : Nat} (hgap : gap ≤ text.length)
    (hpos : pos ≤ text.length) (hfuel : text.length + 1 < fuel)
    (wchars : Bytes) (n : TecoInt) (endOfWord : Bool) :
    gapFindWords fuel wchars text gap pos n endOfWord =
      .ok (flatWords wchars text pos n endOfWord) := by
  have hdrop : text.length - (text.drop pos).length = pos := by
    rw [List.length_drop]
    omega
  have htake : (text.take pos).reverse.length = pos := by
    rw [List.length_reverse, List.length_take]
    omega
  unfold gapFindWords flatWords
  dsimp only
  by_cases hzero : n = 0
  · rw [if_pos hzero, hzero, if_pos (by decide)]
    change _ = Except.ok (true, text.length - (text.drop pos).length)
    rw [hdrop]
    rfl
  have hne : n.toInt ≠ 0 := by
    intro h
    exact hzero (BitVec.toInt_inj.mp h)
  rw [if_neg hzero]
  by_cases hforward : 0 < n.toInt
  · have hcount : exists k, n.toInt.natAbs = k + 1 :=
      ⟨n.toInt.natAbs - 1, by omega⟩
    rw [if_pos hforward, if_pos (Int.le_of_lt hforward)]
    by_cases hend : text.drop pos = []
    · have hlast : pos = text.length :=
        Nat.le_antisymm hpos (List.drop_eq_nil_iff.mp hend)
      have hrange : (if pos < gap then gap - pos else text.length - pos) =
          0 := by
        rw [if_neg (by omega), hlast, Nat.sub_self]
      rcases hcount with ⟨k, hk⟩
      rw [if_pos hrange, hend, hk, hlast]
      rfl
    · have hlt : pos < text.length := by
        by_contra hge
        exact hend (List.drop_eq_nil_iff.mpr (Nat.not_lt.mp hge))
      have hrange : (if pos < gap then gap - pos else text.length - pos) ≠
          0 := by
        split <;> omega
      rw [if_neg hrange]
      have hleft (s : Cursor) (rest : Bytes) (h : ForwardRest text gap s rest) :
          s.pos = (fun rest : Bytes => text.length - rest.length) rest := by
        have hinside := h.inside
        change s.pos = text.length - rest.length
        rw [h.rest_eq, List.length_drop]
        omega
      refine skipWords_reads (reads_forward hgap) hleft _ _ _ ⟨hpos, rfl, ?_⟩
        hend (by rw [List.length_drop]; omega)
      change pos ≤ gap ∧ (rangePointer text pos _).drop 0 = _ ∨
        gap ≤ pos ∧ (rangePointer text pos _).drop 0 = _
      rw [List.drop_zero]
      split
      · next hbefore => exact .inl ⟨Nat.le_of_lt hbefore, List.drop_take.symm⟩
      · next hbehind =>
          refine .inr ⟨Nat.not_lt.mp hbehind, ?_⟩
          exact List.take_of_length_le (Nat.le_of_eq List.length_drop)
  · have hback : ¬ 0 ≤ n.toInt := by omega
    rw [if_neg hforward, if_neg hback]
    by_cases hbegin : pos = 0
    · have hrange : (if gap < pos then pos - gap else pos) = 0 := by
        rw [if_neg (by omega), hbegin]
      have hcount : exists k, n.toInt.natAbs = k + 1 :=
        ⟨n.toInt.natAbs - 1, by omega⟩
      rcases hcount with ⟨k, hk⟩
      rw [if_pos hrange, hk, hbegin]
      rfl
    · have hrange : (if gap < pos then pos - gap else pos) ≠ 0 := by
        split <;> omega
      rw [if_neg hrange]
      have hleft (s : Cursor) (rest : Bytes)
          (h : BackwardRest text gap s rest) :
          s.pos = List.length rest := by
        rw [h.rest_eq, List.length_reverse, List.length_take,
          Nat.min_eq_left h.inside]
      have hne : (text.take pos).reverse ≠ [] := by
        intro hnil
        rw [hnil] at htake
        exact hbegin htake.symm
      refine skipWords_reads reads_backward hleft _ _ _ ⟨hpos, ?_, rfl, ?_⟩
        hne (by rw [htake]; omega)
      · change (if gap < pos then pos - gap else pos) ≤
          (rangePointer text _ _).length
        unfold rangePointer
        rw [List.length_take, List.length_drop]
        split <;> omega
      · change gap ≤ pos ∧ (rangePointer text _ _).take _ = _ ∨
          pos ≤ gap ∧ (rangePointer text _ _).take _ = text.take pos
        unfold rangePointer
        rw [List.take_take, Nat.min_self]
        split
        · next hbehind =>
            refine .inl ⟨Nat.le_of_lt hbehind, ?_⟩
            rw [Nat.sub_sub_self (Nat.le_of_lt hbehind)]
            exact List.drop_take.symm
        · next hbefore =>
            refine .inr ⟨Nat.not_lt.mp hbefore, ?_⟩
            rw [Nat.sub_self, List.drop_zero]

theorem afterWords_length (isWord : UInt8 -> Bool) (first : Bool) (n : Nat) :
    forall text : Bytes,
      (afterWords isWord first n text).2.length ≤ text.length := by
  induction n with
  | zero => exact fun text => Nat.le_refl _
  | succ n ih =>
      intro text
      cases text with
      | nil => exact Nat.le_refl _
      | cons c text =>
          have hword : (afterWord isWord first (c :: text)).length ≤
              (c :: text).length :=
            Nat.le_trans (List.dropWhile_sublist _).length_le
              (List.dropWhile_sublist _).length_le
          exact Nat.le_trans (ih _) hword

/-- Backward is forward in the reversed text. -/
theorem flatWords_reverse {pos : Nat} (hpos : pos ≤ text.length)
    (wchars : Bytes) {n : TecoInt} (hn : 0 ≤ n.toInt) (endOfWord : Bool) :
    flatWords wchars text pos (-n) endOfWord =
      ((flatWords wchars text.reverse (text.length - pos) n (!endOfWord)).1,
        text.length -
          (flatWords wchars text.reverse (text.length - pos) n
            (!endOfWord)).2) := by
  have hdrop : text.reverse.drop (text.length - pos) =
      (text.take pos).reverse := List.reverse_take.symm
  have hlength : (text.take pos).reverse.length = pos := by
    rw [List.length_reverse, List.length_take, Nat.min_eq_left hpos]
  have hle := afterWords_length (fun c => wchars.contains c) endOfWord
    n.toInt.natAbs (text.take pos).reverse
  rw [hlength] at hle
  unfold flatWords
  dsimp only
  rw [if_pos hn, hdrop, List.length_reverse, Bool.not_not]
  by_cases hzero : n = 0
  · rw [hzero, if_pos (by decide)]
    change (true, text.length - (text.drop pos).length) =
      (true, text.length -
        (text.length - (text.take pos).reverse.length))
    rw [hlength, List.length_drop]
  · have hne : n.toInt ≠ 0 := fun h => hzero (BitVec.toInt_inj.mp h)
    have hneg : (-n).toInt = -n.toInt := by
      apply BitVec.toInt_neg_of_ne_intMin
      intro hmin
      rw [hmin] at hn
      exact absurd hn (by decide)
    rw [hneg, if_neg (by omega), Int.natAbs_neg]
    congr 1
    omega

end

/-!
## The deletion of words
-/

section

variable {isWord : UInt8 -> Bool} {first : Bool}

theorem scanWord_eq (text : Bytes) :
    forall skipWord : Bool, scanWord isWord first skipWord text =
      phaseRest isWord first skipWord text := by
  induction text with
  | nil => exact fun skipWord => (phaseRest_nil skipWord).symm
  | cons c text ih =>
      intro skipWord
      unfold scanWord
      by_cases hkind : isWord c = skipWord
      · have hskip : ((!isWord c) == skipWord) = false := by
          rw [hkind]
          cases skipWord <;> rfl
        rw [hskip, if_neg (by decide), phaseRest_skip hkind]
        exact ih skipWord
      · have hchange : isWord c = !skipWord := Bool.eq_not.mpr hkind
        have hskip : ((!isWord c) == skipWord) = true := by
          rw [hchange, Bool.not_not, beq_self_eq_true]
        rw [hskip, if_pos rfl]
        by_cases hfirst : skipWord = first
        · rw [hfirst] at hchange ⊢
          rw [if_neg (fun hne => hne rfl), phaseRest_change hchange,
            phaseRest_skip hchange]
          exact ih (!first)
        · have hlast : skipWord = !first := Bool.eq_not.mpr hfirst
          have hstop : isWord c = first := by
            rw [hchange, hlast, Bool.not_not]
          rw [if_pos hfirst, hlast, phaseRest_stop hstop]

theorem scanWords_eq (n : Nat) :
    forall text : Bytes, text ≠ [] ->
      scanWords isWord first n text = afterWords isWord first n text := by
  induction n with
  | zero => exact fun text _ => rfl
  | succ n ih =>
      intro text hne
      have hphase : scanWord isWord first first text =
          afterWord isWord first text := by
        rw [scanWord_eq]
        exact if_pos rfl
      have hwords : afterWords isWord first (n + 1) text =
          afterWords isWord first n (afterWord isWord first text) := by
        cases text with
        | nil => exact absurd rfl hne
        | cons c text => rfl
      unfold scanWords
      rw [hphase, hwords]
      cases hrest : afterWord isWord first text with
      | nil => cases n <;> rfl
      | cons c rest => exact ih _ (List.cons_ne_nil c rest)

end

/-- The words that are deleted are those of the string. -/
theorem findWords_flat {text : Bytes} {pos : Nat} (hpos : pos ≤ text.length)
    (wchars : Bytes) (n : TecoInt) (endOfWord : Bool) :
    findWords wchars text pos n endOfWord =
      flatWords wchars text pos n endOfWord := by
  unfold findWords flatWords
  dsimp only
  by_cases hzero : n.toInt = 0
  · rw [if_pos hzero, hzero, if_pos (Int.le_refl 0)]
    change (true, pos) = (true, text.length - (text.drop pos).length)
    rw [List.length_drop]
    congr 1
    omega
  have hcount : exists k, n.toInt.natAbs = k + 1 :=
    ⟨n.toInt.natAbs - 1, by omega⟩
  rcases hcount with ⟨k, hk⟩
  rw [if_neg hzero]
  by_cases hforward : 0 < n.toInt
  · rw [if_pos hforward, if_pos (Int.le_of_lt hforward)]
    by_cases hend : pos = text.length
    · rw [if_pos hend, hend, hk, List.drop_length]
      rfl
    · have hne : text.drop pos ≠ [] := by
        intro hnil
        have hle := List.drop_eq_nil_iff.mp hnil
        omega
      rw [if_neg hend, scanWords_eq _ _ hne]
  · have hback : ¬ 0 ≤ n.toInt := by omega
    rw [if_neg hforward, if_neg hback]
    by_cases hbegin : pos = 0
    · rw [if_pos hbegin, hbegin, hk]
      rfl
    · have hne : (text.take pos).reverse ≠ [] := by
        intro hnil
        have hlength := congrArg List.length hnil
        rw [List.length_reverse, List.length_take, List.length_nil] at hlength
        omega
      rw [if_neg hbegin, scanWords_eq _ _ hne]

/-- The words are found as in one string, wherever the gap is, and backward as
forward in the reversed text. -/
theorem gapFindWords_eq {text : Bytes} {fuel gap gap' pos : Nat}
    (hgap : gap ≤ text.length) (hgap' : gap' ≤ text.length)
    (hpos : pos ≤ text.length) (hfuel : text.length + 1 < fuel)
    (wchars : Bytes) (n : TecoInt) (endOfWord : Bool) :
    gapFindWords fuel wchars text gap pos n endOfWord =
        .ok (flatWords wchars text pos n endOfWord) ∧
      (0 ≤ n.toInt ->
        gapFindWords fuel wchars text gap pos (-n) endOfWord =
          (gapFindWords fuel wchars text.reverse gap' (text.length - pos) n
            (!endOfWord)).map
            (fun found => (found.1, text.length - found.2))) := by
  constructor
  · exact gapFindWords_flat hgap hpos hfuel wchars n endOfWord
  · intro hn
    have hlength : text.reverse.length = text.length := List.length_reverse
    rw [gapFindWords_flat hgap hpos hfuel,
      gapFindWords_flat (hlength ▸ hgap') (by omega) (by omega),
      flatWords_reverse hpos wchars hn]
    rfl

/-- Two words forward across the gap, to the last word. -/
theorem gapFindWords_eq_two :
    gapFindWords 9 (utf8 "abc") (utf8 "a b c") 1 0 2 false =
      .ok (true, 4) :=
  (@gapFindWords_eq (utf8 "a b c") 9 1 0 0 (by decide) (by decide)
    (by decide) (by decide) (utf8 "abc") 2 false).1.trans (by rfl)

end Editing
end SciTECO
