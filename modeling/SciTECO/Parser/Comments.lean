import Mathlib.Data.List.Induction
import Mathlib.Data.List.Infix
import SciTECO.Parser.Coherent
import SciTECO.Parser.SampleHost

/-!
# Block comments

A block comment should end at the first `*!`.  The machine looks for it with
two states.  It forgets an asterisk that follows an asterisk, so that the end of
the comment is found only behind an odd number of them.
-/

namespace SciTECO
namespace Parser

open Undoable

variable {W Reg : Type} [DecidableEq Reg] (host : Host W Reg) (env : Env)

/-!
## The end of a comment
-/

/-- What ends a block comment. -/
def commentEnd : List Gunichar := ['*'.toNat, '!'.toNat]

/-- A text ends with the first `*!` in it. -/
def EndsAtFirst (text : List Gunichar) : Prop :=
  commentEnd <:+ text ∧
    forall earlier, earlier <+: text -> earlier ≠ text ->
      ¬ commentEnd <:+ earlier

instance (text : List Gunichar) : Decidable (EndsAtFirst text) :=
  decidable_of_iff
    (commentEnd <:+ text ∧
      forall earlier, earlier ∈ text.inits -> earlier ≠ text ->
        ¬ commentEnd <:+ earlier)
    (by simp only [EndsAtFirst, List.mem_inits])

/-- A machine in a comment leaves it with the last character of a text. -/
def Closes (s : State W Reg) (text : List Gunichar) : Prop :=
  (exists t, result (feed host env text) s = .ok ((), t) ∧
    t.machine.current = MainState.start) ∧
    forall earlier, earlier <+: text -> earlier ≠ text ->
      exists t, result (feed host env earlier) s = .ok ((), t) ∧
        t.machine.current ≠ MainState.start

/-- A machine behind `!*` leaves the comment exactly at the first `*!` in a
text, and nothing in it is entered in the goto table. -/
structure ClosedAtFirst (s : State W Reg) (text : List Gunichar) : Prop where
  closes : forall part, part <+: text ->
    (Closes host env s part <-> EndsAtFirst part)
  table : forall part, part <+: text ->
    (forall earlier, earlier <+: part -> earlier ≠ part ->
      ¬ Closes host env s earlier) ->
    exists t, result (feed host env part) s = .ok ((), t) ∧
      t.machine.gotoTable = s.machine.gotoTable

/-- The block comment `!*` with a text is closed exactly at the first `*!` in
the text. -/
def CommentClosedAtFirst (s : State W Reg) (text : List Gunichar) : Prop :=
  exists t, result (feed host env ['!'.toNat, '*'.toNat]) s = .ok ((), t) ∧
    t.machine.gotoTable = s.machine.gotoTable ∧
    ClosedAtFirst host env t text

/-- The number of asterisks at the end of a text. -/
def trailingStars (text : List Gunichar) : Nat :=
  (text.reverse.takeWhile (fun chr => chr == '*'.toNat)).length

/-- The first `*!` of a text follows an even number of asterisks. -/
def EvenStars (text : List Gunichar) : Prop :=
  forall body, body ++ commentEnd <+: text ->
    EndsAtFirst (body ++ commentEnd) -> trailingStars body % 2 = 0

instance (text : List Gunichar) : Decidable (EvenStars text) :=
  decidable_of_iff
    (forall body, body ∈ text.inits -> body ++ commentEnd <+: text ->
      EndsAtFirst (body ++ commentEnd) -> trailingStars body % 2 = 0)
    (by
      simp only [List.mem_inits]
      constructor
      · intro h body hbody
        exact h body ((List.prefix_append body commentEnd).trans hbody) hbody
      · intro h body _
        exact h body)

/-!
## Prefixes
-/

/-- Prefixes of a text which ends with `chr`. -/
theorem prefix_snoc {α : Type} {earlier text : List α} {chr : α}
    (h : earlier <+: text ++ [chr]) :
    earlier = text ++ [chr] ∨ earlier <+: text :=
  List.prefix_concat_iff.mp h

theorem ne_snoc_of_part {α : Type} {earlier text : List α} (chr : α)
    (h : earlier <+: text) : earlier ≠ text ++ [chr] := by
  intro heq
  have hle := h.length_le
  rw [heq, List.length_append] at hle
  exact absurd hle (Nat.not_succ_le_self _)

/-- The first prefix with a property. -/
theorem exists_first_part {α : Type} {P : List α -> Prop} (text : List α)
    (h : exists part, part <+: text ∧ P part) :
    exists part, part <+: text ∧ P part ∧
      forall earlier, earlier <+: part -> earlier ≠ part -> ¬ P earlier := by
  induction text using List.reverseRecOn with
  | nil =>
      rcases h with ⟨part, hpart, hP⟩
      refine ⟨part, hpart, hP, ?_⟩
      intro earlier hearlier hne
      rw [List.prefix_nil.mp hpart] at hearlier hne
      exact absurd (List.prefix_nil.mp hearlier) hne
  | append_singleton text chr ih =>
      by_cases hshorter : exists part, part <+: text ∧ P part
      · rcases ih hshorter with ⟨part, hpart, hfirst⟩
        exact ⟨part, hpart.trans (List.prefix_append text [chr]), hfirst⟩
      · rcases h with ⟨part, hpart, hP⟩
        rcases prefix_snoc hpart with rfl | hpart
        · refine ⟨_, List.prefix_refl _, hP, ?_⟩
          intro earlier hearlier hne hearly
          exact hshorter
            ⟨earlier, (prefix_snoc hearlier).resolve_left hne, hearly⟩
        · exact absurd ⟨part, hpart, hP⟩ hshorter

/-!
## The states of a comment
-/

/-- The next state in a comment. -/
def commentStep (state : MainState) (chr : Gunichar) : MainState :=
  if state = MainState.blockcommentStar then blockcommentStarInput chr
  else blockcommentInput chr

/-- The state behind a text which does not close the comment before its end. -/
def commentState (text : List Gunichar) : MainState :=
  text.foldl commentStep MainState.blockcomment

@[simp] theorem commentState_snoc (text : List Gunichar) (chr : Gunichar) :
    commentState (text ++ [chr]) = commentStep (commentState text) chr :=
  List.foldl_append

theorem commentStep_star {state : MainState} {chr : Gunichar}
    (h : commentStep state chr = MainState.blockcommentStar) :
    state ≠ MainState.blockcommentStar ∧ chr = '*'.toNat := by
  unfold commentStep blockcommentStarInput blockcommentInput at h
  split at h
  · split at h <;> cases h
  · next hstate =>
      split at h
      · next hchr => exact ⟨hstate, hchr⟩
      · cases h

theorem commentStep_start {state : MainState} {chr : Gunichar}
    (h : commentStep state chr = MainState.start) :
    state = MainState.blockcommentStar ∧ chr = '!'.toNat := by
  unfold commentStep blockcommentStarInput blockcommentInput at h
  split at h
  · next hstate =>
      split at h
      · next hchr => exact ⟨hstate, hchr⟩
      · cases h
  · split at h <;> cases h

theorem commentStep_cases (state : MainState) (chr : Gunichar) :
    commentStep state chr = MainState.blockcomment ∨
      commentStep state chr = MainState.blockcommentStar ∨
      commentStep state chr = MainState.start := by
  unfold commentStep blockcommentStarInput blockcommentInput
  split
  · split
    · exact .inr (.inr rfl)
    · exact .inl rfl
  · split
    · exact .inr (.inl rfl)
    · exact .inl rfl

theorem commentState_cases (text : List Gunichar) :
    commentState text = MainState.blockcomment ∨
      commentState text = MainState.blockcommentStar ∨
      commentState text = MainState.start := by
  cases text using List.reverseRecOn with
  | nil => exact .inl rfl
  | append_singleton text chr =>
      rw [commentState_snoc]
      exact commentStep_cases (commentState text) chr

/-- The machine leaves a comment behind `*!` only. -/
theorem commentEnd_of_start {text : List Gunichar}
    (h : commentState text = MainState.start) : commentEnd <:+ text := by
  cases text using List.reverseRecOn with
  | nil => cases h
  | append_singleton text chr =>
      rw [commentState_snoc] at h
      rcases commentStep_start h with ⟨hstar, rfl⟩
      cases text using List.reverseRecOn with
      | nil => cases hstar
      | append_singleton text chr =>
          rw [commentState_snoc] at hstar
          rcases commentStep_star hstar with ⟨_, rfl⟩
          exact ⟨text, (List.append_assoc text ['*'.toNat] ['!'.toNat]).symm⟩

theorem trailingStars_snoc (text : List Gunichar) (chr : Gunichar) :
    trailingStars (text ++ [chr]) =
      if chr = '*'.toNat then trailingStars text + 1 else 0 := by
  unfold trailingStars
  rw [List.reverse_append, List.reverse_singleton, List.singleton_append,
    List.takeWhile_cons]
  split
  · next h => rw [if_pos (beq_iff_eq.mp h), List.length_cons]
  · next h => rw [if_neg (fun heq => h (beq_iff_eq.mpr heq)), List.length_nil]

theorem commentEnd_suffix_snoc {text : List Gunichar}
    (h : commentState text = MainState.blockcommentStar) :
    commentEnd <:+ text ++ ['!'.toNat] := by
  apply commentEnd_of_start
  rw [commentState_snoc, h]
  rfl

/-- Only every second asterisk is remembered. -/
theorem commentState_open {text : List Gunichar}
    (h : forall earlier, earlier <+: text -> ¬ commentEnd <:+ earlier) :
    commentState text =
      if trailingStars text % 2 = 1 then MainState.blockcommentStar
      else MainState.blockcomment := by
  induction text using List.reverseRecOn with
  | nil => rfl
  | append_singleton text chr ih =>
      have hbefore : text <+: text ++ [chr] := List.prefix_append text [chr]
      have hstate := ih (fun earlier hearlier =>
        h earlier (hearlier.trans hbefore))
      rw [commentState_snoc, trailingStars_snoc]
      by_cases hstar : chr = '*'.toNat
      · rw [if_pos hstar, hstate, hstar]
        rcases Nat.mod_two_eq_zero_or_one (trailingStars text) with hpar | hpar
        · rw [if_neg (by omega), if_pos (by omega)]
          rfl
        · rw [if_pos hpar, if_neg (by omega)]
          rfl
      · rw [if_neg hstar, if_neg (by decide)]
        unfold commentStep
        split
        · next hodd =>
            have hne : chr ≠ '!'.toNat := by
              rintro rfl
              exact h _ (List.prefix_refl _) (commentEnd_suffix_snoc hodd)
            exact if_neg hne
        · exact if_neg hstar

/-- The first `*!` closes a comment behind an even number of asterisks. -/
theorem commentState_end {body : List Gunichar}
    (h : EndsAtFirst (body ++ commentEnd)) :
    commentState (body ++ commentEnd) = MainState.start <->
      trailingStars body % 2 = 0 := by
  have hsplit : body ++ commentEnd = body ++ ['*'.toNat] ++ ['!'.toNat] :=
    (List.append_assoc body ['*'.toNat] ['!'.toNat]).symm
  have hopen : commentState (body ++ ['*'.toNat]) =
      if trailingStars (body ++ ['*'.toNat]) % 2 = 1 then
        MainState.blockcommentStar
      else MainState.blockcomment := by
    apply commentState_open
    intro earlier hearlier
    apply h.2 earlier
    · rw [hsplit]
      exact hearlier.trans (List.prefix_append _ _)
    · rw [hsplit]
      exact ne_snoc_of_part _ hearlier
  rw [hsplit, commentState_snoc, hopen, trailingStars_snoc, if_pos rfl]
  rcases Nat.mod_two_eq_zero_or_one (trailingStars body) with hpar | hpar
  · rw [if_pos (by omega)]
    exact ⟨fun _ => hpar, fun _ => rfl⟩
  · rw [if_neg (by omega)]
    constructor
    · intro hstart
      cases hstart
    · intro heven
      omega

/-!
## Running a comment
-/

variable {host env}

theorem feed_append (first second : List Gunichar) :
    feed host env (first ++ second) =
      (do feed host env first; feed host env second) := by
  induction first with
  | nil => rw [List.nil_append, feed, pure_bind]
  | cons chr first ih =>
      rw [List.cons_append, feed, feed, ih, bind_assoc]

theorem result_feed_snoc {s t : State W Reg} {text : List Gunichar}
    (h : result (feed host env text) s = .ok ((), t)) (chr : Gunichar) :
    result (feed host env (text ++ [chr])) s =
      result (machineInput host env chr) t := by
  rw [feed_append, result_bind_of_ok h, feed, feed, bind_pure_unit]

theorem result_undo {σ : Type} (token : σ -> σ) (s : σ) :
    result (undo env token) s = .ok ((), s) := by
  unfold undo
  split <;> rfl

/-- A state which does nothing when it is entered follows. -/
theorem machineInput_enters {s : State W Reg} {chr : Gunichar}
    {next : MainState}
    (hinput : result (stateInput host env s.machine.current chr) s =
      .ok (next, s))
    (hinitial : stateInitial host env next = pure ()) :
    result (machineInput host env chr) s =
      .ok ((), s.mapMachine (fun m => { m with current := next })) := by
  unfold machineInput
  rw [result_bind_of_ok (result_get s), result_bind_of_ok hinput]
  unfold enterState
  rw [result_bind_of_ok (result_get s)]
  split
  · next hsame =>
      rw [hsame]
      rfl
  · rw [result_bind_of_ok (result_undo _ s),
      result_bind_of_ok (result_modify _ s), hinitial]
    rfl

theorem machineInput_comment {s : State W Reg} (chr : Gunichar)
    (h : s.machine.current = MainState.blockcomment ∨
      s.machine.current = MainState.blockcommentStar) :
    result (machineInput host env chr) s =
      .ok ((), s.mapMachine (fun m =>
        { m with current := commentStep s.machine.current chr })) := by
  apply machineInput_enters
  · rcases h with h | h <;> rw [h] <;> rfl
  · rcases commentStep_cases s.machine.current chr with h | h | h <;> rw [h] <;>
      rfl

/-- A comment that is not left before the end of a text: nothing but the state
of the machine changes. -/
theorem feed_comment {s : State W Reg}
    (hs : s.machine.current = MainState.blockcomment) {text : List Gunichar}
    (h : forall earlier, earlier <+: text -> earlier ≠ text ->
      commentState earlier ≠ MainState.start) :
    result (feed host env text) s =
      .ok ((), s.mapMachine (fun m =>
        { m with current := commentState text })) := by
  induction text using List.reverseRecOn with
  | nil =>
      change Except.ok ((), s) = _
      rw [show commentState [] = s.machine.current from hs.symm]
      rfl
  | append_singleton text chr ih =>
      have hbefore : text <+: text ++ [chr] := List.prefix_append text [chr]
      have hrun := ih (fun earlier hearlier _ =>
        h earlier (hearlier.trans hbefore) (ne_snoc_of_part chr hearlier))
      have hopen := h text hbefore
        (ne_snoc_of_part chr (List.prefix_refl text))
      rw [result_feed_snoc hrun, machineInput_comment, commentState_snoc]
      · rfl
      · rcases commentState_cases text with hstate | hstate | hstate
        · exact .inl hstate
        · exact .inr hstate
        · exact absurd hstate hopen

/-- A machine in a comment stays in it until its last character. -/
theorem Closes.before {s : State W Reg}
    (hs : s.machine.current = MainState.blockcomment) {text : List Gunichar}
    (h : Closes host env s text) (earlier : List Gunichar)
    (hearlier : earlier <+: text) (hne : earlier ≠ text) :
    forall part, part <+: earlier -> commentState part ≠ MainState.start := by
  induction earlier using List.reverseRecOn with
  | nil =>
      intro part hpart hstart
      rw [List.prefix_nil.mp hpart] at hstart
      cases hstart
  | append_singleton earlier chr ih =>
      have hbefore : earlier <+: text :=
        (List.prefix_append earlier [chr]).trans hearlier
      have hbefore := ih hbefore (by
        rintro rfl
        exact ne_snoc_of_part chr hearlier rfl)
      intro part hpart
      rcases prefix_snoc hpart with rfl | hpart
      · have hrun : result (feed host env (earlier ++ [chr])) s = _ :=
          feed_comment hs (fun shorter hshorter hlt =>
            hbefore shorter ((prefix_snoc hshorter).resolve_left hlt))
        rcases h.2 _ hearlier hne with ⟨t, ht, hcurrent⟩
        rw [hrun] at ht
        cases ht
        exact hcurrent
      · exact hbefore part hpart

/-- What closes a comment, in terms of its states. -/
theorem closes_iff {s : State W Reg}
    (hs : s.machine.current = MainState.blockcomment)
    (text : List Gunichar) :
    Closes host env s text <->
      commentState text = MainState.start ∧
        forall earlier, earlier <+: text -> earlier ≠ text ->
          commentState earlier ≠ MainState.start := by
  constructor
  · intro h
    have hbefore : forall earlier, earlier <+: text -> earlier ≠ text ->
        commentState earlier ≠ MainState.start :=
      fun earlier hearlier hne =>
        h.before hs earlier hearlier hne earlier (List.prefix_refl earlier)
    refine ⟨?_, hbefore⟩
    rcases h.1 with ⟨t, ht, hcurrent⟩
    rw [feed_comment hs hbefore] at ht
    cases ht
    exact hcurrent
  · rintro ⟨hstart, hbefore⟩
    refine ⟨⟨_, feed_comment hs hbefore, hstart⟩, ?_⟩
    intro earlier hearlier hne
    refine ⟨_, feed_comment hs ?_, hbefore earlier hearlier hne⟩
    intro shorter hshorter hlt
    apply hbefore shorter (hshorter.trans hearlier)
    rintro rfl
    exact hlt (hshorter.eq_of_length_le hearlier.length_le)

/-- Comments do not end before the first `*!`. -/
theorem endsAtFirst_before {text : List Gunichar} (h : EndsAtFirst text)
    (earlier : List Gunichar) (hearlier : earlier <+: text)
    (hne : earlier ≠ text) : commentState earlier ≠ MainState.start :=
  fun hstart => h.2 earlier hearlier hne (commentEnd_of_start hstart)

theorem closedAtFirst_iff {s : State W Reg}
    (hs : s.machine.current = MainState.blockcomment)
    (text : List Gunichar) :
    ClosedAtFirst host env s text <-> EvenStars text := by
  constructor
  · intro h body hbody hfirst
    have hcloses := (h.closes _ hbody).mpr hfirst
    exact (commentState_end hfirst).mp ((closes_iff hs _).mp hcloses).1
  · intro heven
    have hcloses : forall part, part <+: text ->
        (Closes host env s part <-> EndsAtFirst part) := by
      intro part hpart
      rw [closes_iff hs]
      constructor
      · rintro ⟨hstart, hopen⟩
        refine ⟨commentEnd_of_start hstart, ?_⟩
        intro earlier hearlier hne hend
        rcases exists_first_part earlier
          ⟨earlier, List.prefix_refl earlier, hend⟩ with
          ⟨first, hbefore, ⟨body, rfl⟩, hfirst⟩
        have hends : EndsAtFirst (body ++ commentEnd) :=
          ⟨List.suffix_append body commentEnd, hfirst⟩
        have hstars := heven body
          ((hbefore.trans hearlier).trans hpart) hends
        apply hopen _ (hbefore.trans hearlier)
        · rintro rfl
          exact hne (hearlier.eq_of_length_le hbefore.length_le)
        · exact (commentState_end hends).mpr hstars
      · intro hfirst
        refine ⟨?_, endsAtFirst_before hfirst⟩
        rcases hfirst.1 with ⟨body, rfl⟩
        exact (commentState_end hfirst).mpr (heven body hpart hfirst)
    constructor
    · exact hcloses
    · intro part hpart hopen
      refine ⟨_, feed_comment hs ?_, rfl⟩
      intro earlier hearlier hne hstart
      rcases @exists_first_part _
        (fun part => commentState part = MainState.start) earlier
        ⟨earlier, List.prefix_refl earlier, hstart⟩ with
        ⟨first, hbefore, hfirst⟩
      apply hopen first (hbefore.trans hearlier)
      · rintro rfl
        exact hne (hearlier.eq_of_length_le hbefore.length_le)
      · exact (closes_iff hs first).mpr hfirst

/-- `!*` opens a block comment in every mode. -/
theorem feed_opensComment {s : State W Reg}
    (hs : s.machine.current = MainState.start)
    (hat : s.machine.flags.modifierAt = false)
    (hcolon : s.mode = Mode.normal -> s.machine.flags.modifierColon = 0)
    (hlabel : s.machine.gotoLabel = []) :
    result (feed host env ['!'.toNat, '*'.toNat]) s =
      .ok ((), s.mapMachine (fun m =>
        { m with current := MainState.blockcomment })) := by
  have hinput : result (stateInput host env s.machine.current '!'.toNat) s =
      .ok (MainState.label, s) := by
    have hallowed : ¬ ((s.machine.flags.modifierAt ∧ false = false) ∨
        (s.mode = Mode.normal ∧ s.machine.flags.modifierColon > 0)) := by
      rw [hat]
      rintro (⟨hfalse, _⟩ | ⟨hnormal, hpos⟩)
      · cases hfalse
      · rw [hcolon hnormal] at hpos
        cases hpos
    have htransition :
        result (stateInput host env MainState.start '!'.toNat) s =
          result (transitionInput host env startTransitions '!'.toNat) s := by
      have hascii : ascii '!'.toNat = some '!' := by decide
      change result (startInput host env '!'.toNat) s = _
      unfold startInput
      rw [result_bind_of_ok (result_get s), if_neg (by decide),
        if_neg (by decide), hascii]
      rfl
    rw [hs, htransition, transitionInput, result_bind_of_ok (result_get s)]
    change result (if (s.machine.flags.modifierAt ∧ false = false) ∨
        (s.mode = Mode.normal ∧ s.machine.flags.modifierColon > 0) then
          throw (TecoError.modifier '!'.toNat)
        else pure MainState.label) s = _
    rw [if_neg hallowed]
    rfl
  rw [feed, result_bind_of_ok (machineInput_enters hinput rfl), feed, feed,
    bind_pure_unit]
  apply machineInput_enters
  · change result (labelInput env '*'.toNat) _ = _
    unfold labelInput
    rw [result_bind_of_ok (result_get _), if_pos ⟨hlabel, rfl⟩]
    rfl
  · rfl

/-- In every mode, a block comment ends at the first `*!` if and only if this
follows an even number of other asterisks. -/
theorem blockcomment_closedAtFirst_iff {s : State W Reg}
    (hs : s.machine.current = MainState.start)
    (hat : s.machine.flags.modifierAt = false)
    (hcolon : s.mode = Mode.normal -> s.machine.flags.modifierColon = 0)
    (hlabel : s.machine.gotoLabel = []) (text : List Gunichar) :
    CommentClosedAtFirst host env s text <-> EvenStars text := by
  have hopens := @feed_opensComment _ _ _ host env _ hs hat hcolon hlabel
  constructor
  · rintro ⟨t, ht, _, hclosed⟩
    rw [hopens] at ht
    cases ht
    exact (closedAtFirst_iff rfl text).mp hclosed
  · intro heven
    exact ⟨_, hopens, rfl, (closedAtFirst_iff rfl text).mpr heven⟩

/-- The comment `!*a***!`. -/
theorem blockcomment_closedAtFirst_three :
    CommentClosedAtFirst sampleHost (sampleEnv [] 0 0) sampleStart
      ['a'.toNat, '*'.toNat, '*'.toNat, '*'.toNat, '!'.toNat] :=
  (blockcomment_closedAtFirst_iff rfl rfl (fun _ => rfl) rfl _).mpr (by decide)

/-- The comment `!***!`. -/
theorem blockcomment_misses :
    ¬ CommentClosedAtFirst sampleHost (sampleEnv [] 0 0) sampleStart
      ['*'.toNat, '*'.toNat, '!'.toNat] := by
  rintro ⟨t, ht, _, h⟩
  cases ht
  have hcloses := (h.closes _ (List.prefix_refl _)).mpr (by decide)
  exact absurd ((closes_iff rfl _).mp hcloses).1 (by decide)

end Parser
end SciTECO
