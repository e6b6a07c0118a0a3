import SciTECO.Spawn.Drain

/-!
# The output of a child

What has been passed on and what is still to be read make up the normalized
stream, whatever the order of the events.  When the child has exited, the rest
is read, unless a CRLF is cut there.
-/

namespace SciTECO
namespace Spawn

open Eol

variable {ρ : Type}

/-- Nothing has been inserted yet. -/
def Output.Fresh : Output ρ -> Prop
  | .document added => added = []
  | .register _ => True

namespace Context

/-- What has been passed on. -/
def written (vtable : VTable ρ) (s : Context ρ) : Bytes :=
  if s.textAdded then s.output.text vtable else []

theorem written_added {vtable : VTable ρ} {s : Context ρ}
    (h : s.textAdded = true) : s.written vtable = s.output.text vtable := by
  unfold written
  rw [if_pos h]

theorem written_none {vtable : VTable ρ} {s : Context ρ}
    (h : s.textAdded = false) : s.written vtable = [] := by
  unfold written
  rw [h]
  rfl

/-- The chunks that have not been read. -/
def pending (s : Context ρ) : List Bytes :=
  s.reader.source.filterMap Except.toOption

theorem pending_eq {s : Context ρ} {chunks : List Bytes}
    (h : s.reader.source = chunks.map Except.ok) : s.pending = chunks := by
  unfold pending
  rw [h, List.filterMap_map]
  exact List.filterMap_some

/-- The next chunks cut a CRLF. -/
def cut (s : Context ρ) : Bool := cutAhead s.reader s.pending

end Context

theorem map_ok {ε α β : Type} {x : Except ε α} {f : α -> β} {b : β}
    (h : x.map f = .ok b) : exists a, x = .ok a ∧ f a = b := by
  cases x with
  | error e => cases h
  | ok a => exact ⟨a, rfl, Except.ok.inj h⟩

theorem Output.add_text {vtable : VTable ρ} {output output' : Output ρ}
    {textAdded : Bool} {block : Bytes}
    (hfresh : textAdded = false -> output.Fresh)
    (h : output.add vtable textAdded block = .ok output') :
    output'.text vtable =
      (if textAdded then output.text vtable else []) ++ block := by
  cases output with
  | document added =>
      cases h
      cases textAdded with
      | true => rfl
      | false =>
          have hadded : added = [] := hfresh rfl
          subst hadded
          rfl
  | register reg =>
      cases textAdded with
      | true =>
          rcases map_ok (x := vtable.appendString block reg) h with
            ⟨reg', happend, heq⟩
          subst heq
          exact vtable.get_append happend
      | false =>
          rcases map_ok (x := vtable.setString block reg) h with
            ⟨reg', hset, heq⟩
          subst heq
          exact vtable.get_set hset

/-!
## Progress
-/

/-- Nothing has been lost so far. -/
structure Progress (vtable : VTable ρ) (stream : Stream) (output₀ : Output ρ)
    (s : Context ρ) : Prop where
  reads : (exists chunks, Reading s.reader chunks ∧
      s.written vtable ++ remaining s.reader chunks =
        LineEnd.normalize stream.bytes ∧
      (s.reader.cr = true -> s.textAdded = true)) ∨
    s.reader.source = [] ∧ s.reader.buffer = [] ∧
      s.written vtable = LineEnd.normalize stream.bytes
  none : s.textAdded = false -> s.output = output₀
  added : s.textAdded = true -> s.output.text vtable ≠ []

/-- A callback has failed and ended the main loop. -/
def Context.Failed (s : Context ρ) : Prop :=
  s.quit = true ∧ exists e, s.error = some (.teco e)

/-- Everything has been passed on, unless a CRLF has been cut. -/
structure Drained (vtable : VTable ρ) (stream : Stream) (cut : Bool)
    (s : Context ρ) : Prop where
  written : s.written vtable = LineEnd.normalize stream.bytes <-> cut = false
  none : s.textAdded = false -> cut = false

section

variable {vtable : VTable ρ} {stream : Stream} {output₀ : Output ρ}

theorem progress_start (memory : List (Option TecoError)) :
    Progress vtable stream output₀ (.start stream output₀ memory) where
  reads := by
    apply Or.inl
    refine ⟨stream.chunks, reading_init stream, remaining_init stream, ?_⟩
    intro h
    cases h
  none _ := rfl
  added h := by cases h

/-- A block has been passed on. -/
theorem Progress.block {s : Context ρ} {chunks chunks' : List Bytes}
    {r' : Reader} {block : Bytes} {output' : Output ρ}
    (h : Progress vtable stream output₀ s) (hfresh : output₀.Fresh)
    (howed : s.written vtable ++ remaining s.reader chunks =
      LineEnd.normalize stream.bytes)
    (hreading : Reading r' chunks') (hblock : block ≠ [])
    (hremaining : block ++ remaining r' chunks' = remaining s.reader chunks)
    (hadd : s.output.add vtable s.textAdded block = .ok output')
    (memory : List (Option TecoError)) :
    Progress vtable stream output₀
      { s with reader := r', output := output', textAdded := true,
               memory := memory } := by
  have htext : output'.text vtable = s.written vtable ++ block := by
    apply Output.add_text _ hadd
    intro hnone
    rw [h.none hnone]
    exact hfresh
  constructor
  · apply Or.inl
    refine ⟨chunks', hreading, ?_, fun _ => rfl⟩
    show output'.text vtable ++ _ = _
    rw [htext, List.append_assoc, hremaining]
    exact howed
  · intro hnone
    cases hnone
  · intro _ hempty
    rw [show output'.text vtable = [] from hempty] at htext
    exact hblock (List.append_eq_nil_iff.mp htext.symm).2

theorem convert_ended {r : Reader} (hsource : r.source = [])
    (hbuffer : r.buffer = []) :
    exists r', r.convert true readerFuel = some (.eof, r') ∧
      r'.source = [] ∧ r'.buffer = [] := by
  let r₁ : Reader :=
    { r.skipBlock with source := [], offset := 0, buffer := [] }
  refine ⟨r₁.noteCr, ?_, Reader.noteCr_source r₁, Reader.noteCr_buffer r₁⟩
  unfold Reader.convert
  dsimp only
  rw [Reader.skipBlock_buffer, hbuffer,
    if_neg (show ¬r.skipBlock.offset < [].length from Nat.not_lt_zero _),
    Reader.skipBlock_source, hsource]

/-- `teco_spawn_stdout_watch_cb()` fails, or it loses nothing. -/
theorem Progress.loop {fuel : Nat} {s s' : Context ρ}
    (h : Progress vtable stream output₀ s) (hfresh : output₀.Fresh)
    (hrun : stdoutLoop vtable false fuel s = some s') :
    s'.Failed ∨
      Progress vtable stream output₀ s' ∧ s'.error = s.error ∧
        s'.quit = s.quit ∧
        (Drains s.pending -> Drained vtable stream s.cut s') := by
  induction fuel generalizing s with
  | zero => cases hrun
  | succ fuel ih =>
      unfold stdoutLoop at hrun
      rcases h.reads with ⟨chunks, hreading, howed, hcr⟩ |
        ⟨hsource, hbuffer, hdone⟩
      · have hpending := Context.pending_eq hreading.source
        have hcutEq : s.cut = cutAhead s.reader chunks := by
          unfold Context.cut
          rw [hpending]
        rw [hpending, hcutEq]
        rcases hreading.convert with ⟨status, r', hconvert, hconverted⟩
        rw [hconvert] at hrun
        cases hconverted with
        | eof hremaining hcut hsource hbuffer =>
            cases hrun
            rw [hremaining, List.append_nil] at howed
            refine Or.inr ⟨⟨Or.inr ⟨hsource, hbuffer, howed⟩, h.none, h.added⟩,
              rfl, rfl, ?_⟩
            intro _
            exact ⟨⟨fun _ => hcut, fun _ => howed⟩, fun _ => hcut⟩
        | @block block _ chunks' hreading' hdrains hremaining hcut hcr' hempty =>
            dsimp only at hrun
            split at hrun
            case isTrue hstop =>
                have hnil := hstop.2
                subst hnil
                cases hrun
                rw [<- hremaining] at howed
                refine Or.inr ⟨⟨Or.inl ⟨chunks', hreading', howed, ?_⟩, h.none,
                  h.added⟩, rfl, rfl, ?_⟩
                · intro h'
                  exact hcr (hcr' rfl h')
                · intro hpipe
                  rcases hempty rfl hpipe with ⟨hiff, hlast⟩
                  constructor
                  · constructor
                    · intro hall
                      apply Bool.eq_false_iff.mpr
                      intro hcut
                      apply hiff.mp hcut
                      exact List.append_right_eq_self.mp (howed.trans hall.symm)
                    · intro hcut
                      have hnone : remaining r' chunks' = [] := by
                        by_contra hne
                        rw [hiff.mpr hne] at hcut
                        cases hcut
                      rw [hnone] at howed
                      exact (List.append_nil _).symm.trans howed
                  · intro hnone
                    apply Bool.eq_false_iff.mpr
                    intro hcut
                    rw [hcr (hlast hcut)] at hnone
                    cases hnone
            case isFalse hstop =>
                have hblock : block ≠ [] := fun hnil => hstop ⟨rfl, hnil⟩
                cases hadd : s.output.add vtable s.textAdded block with
                | error e =>
                    rw [hadd] at hrun
                    cases hrun
                    exact Or.inl ⟨rfl, e, rfl⟩
                | ok output' =>
                    rw [hadd] at hrun
                    dsimp only [Context.memoryCheck] at hrun
                    have hnext := h.block hfresh howed hreading' hblock
                      hremaining hadd
                    -- The loop goes on with other memory checks.
                    have hloop (memory : List (Option TecoError))
                        (hrun : stdoutLoop vtable false fuel
                          { s with reader := r', output := output',
                                   textAdded := true, memory := memory } =
                            some s') :
                        s'.Failed ∨
                          Progress vtable stream output₀ s' ∧
                            s'.error = s.error ∧ s'.quit = s.quit ∧
                            (Drains chunks -> Drained vtable stream
                              (cutAhead s.reader chunks) s') := by
                      let s₁ : Context ρ :=
                        { s with reader := r', output := output',
                                 textAdded := true, memory := memory }
                      have hpending₁ : s₁.pending = chunks' :=
                        Context.pending_eq hreading'.source
                      have hcut₁ : s₁.cut = cutAhead s.reader chunks := by
                        unfold Context.cut
                        rw [hpending₁]
                        exact hcut hblock
                      rcases ih (hnext memory) hrun with hfail |
                        ⟨hprogress, herror, hquit, hdrained⟩
                      · exact Or.inl hfail
                      · refine Or.inr ⟨hprogress, herror, hquit, ?_⟩
                        intro hpipe
                        rw [<- hcut₁]
                        apply hdrained
                        rw [hpending₁]
                        exact hdrains hpipe
                    cases hmemory : s.memory with
                    | nil =>
                        rw [hmemory] at hrun
                        exact hloop [] hrun
                    | cons result memory =>
                        rw [hmemory] at hrun
                        cases result with
                        | none => exact hloop memory hrun
                        | some e =>
                            cases hrun
                            exact Or.inl ⟨rfl, e, rfl⟩
      · rcases convert_ended hsource hbuffer with
          ⟨r', hconvert, hsource', hbuffer'⟩
        rw [hconvert] at hrun
        cases hrun
        refine Or.inr ⟨⟨Or.inr ⟨hsource', hbuffer', hdone⟩, h.none, h.added⟩,
          rfl, rfl, ?_⟩
        intro _
        have hcut : s.cut = false := by
          have hunread : s.reader.unread = [] := by
            unfold Reader.unread
            rw [hbuffer, List.drop_nil]
          have hnone : s.reader.source = ([] : List Bytes).map Except.ok :=
            hsource
          unfold Context.cut cutAhead
          rw [Context.pending_eq hnone, hunread,
            cutCrlf_empty]
          rfl
        exact ⟨⟨fun _ => hcut, fun _ => hdone⟩, fun _ => hcut⟩

/-!
## Any order of the events
-/

/-- The states of the main loop. -/
inductive Reachable (vtable : VTable ρ) (s₀ : Context ρ) : Context ρ -> Prop
    where
  | start : Reachable vtable s₀ s₀
  | step {s s' : Context ρ} (h : Reachable vtable s₀ s)
      (hquit : s.quit = false) (fuel : Nat) (event : Event)
      (hstep : dispatch vtable fuel s event = some s') :
      Reachable vtable s₀ s'

theorem childWatch_quit {fuel : Nat} {status : WaitStatus}
    {s s' : Context ρ} (herror : s.error = none)
    (h : childWatch vtable fuel status s = some s') : s'.quit = true := by
  unfold childWatch at h
  rw [if_pos herror] at h
  split at h
  case h_1 => cases h
  case h_2 =>
      split at h
      case isTrue => split at h <;> cases h <;> rfl
      case isFalse =>
          cases h
          rfl

/-- As long as the main loop goes on, nothing has been lost. -/
theorem Reachable.progress {memory : List (Option TecoError)} {s : Context ρ}
    (h : Reachable vtable (.start stream output₀ memory) s)
    (hfresh : output₀.Fresh) (hquit : s.quit = false) :
    s.error = none ∧ Progress vtable stream output₀ s := by
  induction h with
  | start => exact ⟨rfl, progress_start memory⟩
  | @step s s' _ hopen fuel event hstep ih =>
      rcases ih hopen with ⟨herror, hprogress⟩
      cases event with
      | stdin written =>
          cases hstep
          unfold stdinWatch at hquit ⊢
          rw [if_pos herror] at hquit ⊢
          cases written with
          | error e => cases hquit
          | ok n => exact ⟨herror, hprogress⟩
      | stdout =>
          have hloop : stdoutLoop vtable false fuel s = some s' := by
            have hwatch : stdoutWatch vtable false fuel s = some s' := hstep
            unfold stdoutWatch at hwatch
            rw [if_pos herror] at hwatch
            exact hwatch
          rcases hprogress.loop hfresh hloop with hfail |
            ⟨hprogress', herror', _⟩
          · rw [hfail.1] at hquit
            cases hquit
          · exact ⟨herror'.trans herror, hprogress'⟩
      | child status =>
          rw [childWatch_quit herror hstep] at hquit
          cases hquit

/-- The exit status does not change what has been read. -/
theorem childWatch_output {fuel : Nat} {status : WaitStatus}
    {s final : Context ρ} (herror : s.error = none)
    (h : childWatch vtable fuel status s = some final) :
    exists s', stdoutLoop vtable false fuel s = some s' ∧
      final.output = s'.output ∧
      (s'.error ≠ none -> final.error = s'.error) := by
  unfold childWatch stdoutWatch at h
  rw [if_pos herror, if_pos herror] at h
  cases hloop : stdoutLoop vtable false fuel s with
  | none =>
      rw [hloop] at h
      cases h
  | some s' =>
      rw [hloop] at h
      dsimp only at h
      refine ⟨s', rfl, ?_⟩
      split at h
      case isTrue hnone =>
          have hstatus : final.output = s'.output := by
            split at h <;> cases h <;> rfl
          exact ⟨hstatus, fun hsome => absurd hnone hsome⟩
      case isFalse =>
          cases h
          exact ⟨rfl, fun _ => rfl⟩

/-- When the child exits in any state of the main loop and the pipe delivers
all bytes, the command has the complete output, unless a CRLF is cut in the
final reads, or the stream is empty and a register keeps its old string. -/
theorem childWatch_complete_iff {memory : List (Option TecoError)}
    {s final : Context ρ} {fuel : Nat} {status : WaitStatus}
    (hrun : Reachable vtable (.start stream output₀ memory) s)
    (hfresh : output₀.Fresh) (hquit : s.quit = false)
    (hpipe : Drains s.pending)
    (hexit : childWatch vtable fuel status s = some final)
    (hok : forall e, final.error ≠ some (.teco e)) :
    final.output.text vtable = LineEnd.normalize stream.bytes <->
      s.cut = false ∧ (stream.bytes = [] -> output₀.text vtable = []) := by
  rcases hrun.progress hfresh hquit with ⟨herror, hprogress⟩
  rcases childWatch_output herror hexit with ⟨s', hloop, houtput, hfail⟩
  have hnil : LineEnd.normalize stream.bytes = [] <-> stream.bytes = [] :=
    LineEnd.encode_eq_nil
  rcases hprogress.loop hfresh hloop with ⟨_, e, he⟩ |
    ⟨hprogress', _, _, hdrained⟩
  · have hfinal := hfail (by rw [he]; exact Option.some_ne_none _)
    exact absurd (hfinal.trans he) (hok e)
  · have hdone := hdrained hpipe
    rw [houtput]
    cases hadded : s'.textAdded with
    | true =>
        rw [<- Context.written_added hadded, hdone.written]
        constructor
        · intro hcut
          refine ⟨hcut, ?_⟩
          intro hempty
          have hwritten := hdone.written.mpr hcut
          rw [hnil.mpr hempty, Context.written_added hadded] at hwritten
          exact absurd hwritten (hprogress'.added hadded)
        · exact And.left
    | false =>
        have hcut := hdone.none hadded
        have hwritten := hdone.written.mpr hcut
        rw [Context.written_none hadded] at hwritten
        have hbytes : stream.bytes = [] := hnil.mp hwritten.symm
        rw [hprogress'.none hadded, <- hwritten]
        constructor
        · intro htext
          exact ⟨hcut, fun _ => htext⟩
        · intro h
          exact h.2 hbytes

/-- A main loop which does not fail ends when the child has exited. -/
theorem mainLoop_exit {memory : List (Option TecoError)} {fuel : Nat}
    {events : List Event} {s final : Context ρ}
    (hrun : Reachable vtable (.start stream output₀ memory) s)
    (hfresh : output₀.Fresh) (hquit : s.quit = false)
    (hloop : mainLoop vtable fuel events s = some final)
    (hok : forall e, final.error ≠ some (.teco e)) :
    exists s' status, Reachable vtable (.start stream output₀ memory) s' ∧
      s'.quit = false ∧ childWatch vtable fuel status s' = some final := by
  induction events generalizing s with
  | nil =>
      unfold mainLoop at hloop
      rw [hquit] at hloop
      cases hloop
  | cons event events ih =>
      unfold mainLoop at hloop
      rw [hquit] at hloop
      cases hstep : dispatch vtable fuel s event with
      | none =>
          rw [hstep] at hloop
          cases hloop
      | some s₁ =>
          rw [hstep] at hloop
          have hrun₁ := hrun.step hquit fuel event hstep
          cases hquit₁ : s₁.quit with
          | false => exact ih hrun₁ hquit₁ hloop
          | true =>
              have hfinal : s₁ = final := by
                cases events with
                | nil =>
                    dsimp only [mainLoop] at hloop
                    rw [hquit₁] at hloop
                    exact Option.some.inj hloop
                | cons next events =>
                    dsimp only [mainLoop] at hloop
                    rw [hquit₁] at hloop
                    exact Option.some.inj hloop
              subst hfinal
              rcases hrun.progress hfresh hquit with ⟨herror, hprogress⟩
              cases event with
              | stdin written =>
                  cases hstep
                  unfold stdinWatch at hquit₁ hok
                  rw [if_pos herror] at hquit₁ hok
                  cases written with
                  | error e => exact absurd rfl (hok e)
                  | ok n =>
                      rw [hquit] at hquit₁
                      cases hquit₁
              | stdout =>
                  have hwatch : stdoutWatch vtable false fuel s = some s₁ :=
                    hstep
                  unfold stdoutWatch at hwatch
                  rw [if_pos herror] at hwatch
                  rcases hprogress.loop hfresh hwatch with ⟨_, e, he⟩ |
                    ⟨_, _, hsame, _⟩
                  · exact absurd he (hok e)
                  · rw [hsame, hquit] at hquit₁
                    cases hquit₁
              | child status => exact ⟨s, status, hrun, hquit, hstep⟩

end

/-- A CRLF between two chunks which are both read before the child exits. -/
theorem childWatch_complete_iff_stdout :
    exists s final : Context Bytes,
      Reachable .plain
          (.start ⟨[[97, 13], [10, 98]], by decide⟩ (.document []) []) s ∧
        childWatch .plain 8 (.exited 0) s = some final ∧
        (final.output.text .plain = LineEnd.normalize [97, 13, 10, 98] <->
          s.cut = false ∧ ([(97 : UInt8), 13, 10, 98] = [] ->
            (Output.document []).text VTable.plain = [])) := by
  let cut : Context Bytes :=
    { reader := ⟨[], [10, 98], 0, 0, -1, some .crlf, false⟩
      output := .document [97, 10], textAdded := true, memory := []
      error := none, rc := tecoFailure, quit := false }
  let done : Context Bytes :=
    { reader := ⟨[], [], 0, 1, 98, some .crlf, false⟩
      output := .document [97, 10, 98], textAdded := true, memory := []
      error := none, rc := tecoFailure, quit := true }
  have hrun : Reachable .plain (.start ⟨[[97, 13], [10, 98]], by decide⟩
      (.document []) []) cut :=
    Reachable.start.step rfl 8 .stdout rfl
  have hexit : childWatch .plain 8 (.exited 0) cut = some done := rfl
  refine ⟨cut, done, hrun, hexit, childWatch_complete_iff hrun rfl rfl
    ⟨[], 0, rfl, ?_⟩ hexit ?_⟩
  · intro chunk hchunk
    cases hchunk
  · intro e h
    cases h

/-- The child has exited before anything is read. -/
theorem childWatch_incomplete :
    (exists final : Context Bytes, childWatch .plain 8 (.exited 0)
        (.start ⟨[[97, 13], [10, 98]], by decide⟩ (.document []) []) =
          some final ∧
      final.error = none ∧ final.output = .document [97, 10] ∧
      LineEnd.normalize [97, 13, 10, 98] = [97, 10, 98]) ∧
    (exists final : Context Bytes, childWatch .plain 8 (.exited 0)
        (.start ⟨[], by decide⟩ (.register [120]) []) = some final ∧
      final.error = none ∧ final.output = .register [120]) := by
  constructor
  · exact ⟨_, rfl, rfl, rfl, by decide⟩
  · exact ⟨_, rfl, rfl, rfl⟩

end Spawn
end SciTECO
