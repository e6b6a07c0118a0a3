import SciTECO.Cmdline.Passes

/-!
# Rubbing out and reinserting

Characters that have been rubbed out are executed again when they are
reinserted.
-/

namespace SciTECO
namespace Cmdline

open PositionLog Undoable Interpreter

variable {σ : Type}

/-- Do something a number of times. -/
def times (m : CmdlineExec σ Unit) : Nat -> CmdlineExec σ Unit
  | 0 => pure ()
  | n + 1 => do
      m
      times m n

theorem times_succ {m : CmdlineExec σ Unit} {n : Nat} {c d e : Cmdline σ}
    (hm : m c = .ok () d []) (hrest : times m n d = .ok () e []) :
    times m (n + 1) c = .ok () e [] := by
  change Undoable.bind m (fun _ => times m n) c = _
  unfold Undoable.bind
  rw [hm]
  dsimp only
  rw [hrest]
  rfl

variable (I : Interpreter σ) (s₀ : σ)

/-- Characters can be rubbed out and reinserted. -/
def Reinserts (fuel n : Nat) (c : Cmdline σ) : Prop :=
  exists d e, times rubout n c = .ok () d [] ∧ d.str = c.str ∧
    times (rubin I fuel) n d = .ok () e [] ∧ e.str = c.str ∧
    e.effectiveLen = c.effectiveLen ∧ I.Same e.machine c.machine ∧
    forall pos, tokensAt e.undoHeads pos = tokensAt c.undoHeads pos

variable {I s₀} {fuel : Nat} {text back rest : List Gunichar}
  {heads heads' : Log σ} {s s' : σ} {c : Cmdline σ}

/-- Bytes which are rubbed out are inserted again. -/
theorem inserting_rubbedOut {data : Bytes}
    (hdata : data <+: c.str.drop c.effectiveLen) :
    (c.inserting I data).cmdline =
      { c.setPc I c.effectiveLen with
        effectiveLen := c.effectiveLen + data.length } := by
  have hle : data.length ≤ c.str.length - c.effectiveLen := by
    rw [<- List.length_drop]
    exact hdata.length_le
  unfold Cmdline.inserting putText
  exact if_pos ⟨hle, List.prefix_iff_eq_take.mp hdata⟩

namespace Ready

/-- The next character is reinserted. -/
theorem reinserted {chr : Gunichar}
    (h : Ready I s₀ text (chr :: rest) heads s c)
    (hexecuted : Executed I s₀ (text ++ [chr]) heads' s')
    (hplain : PlainAt I s₀ (encoded (text ++ [chr])).length text chr)
    (hfuel : 7 ≤ fuel) :
    exists d, Cmdline.rubin I fuel c = .ok () d [] ∧ d.str = c.str ∧
      Ready I s₀ (text ++ [chr]) rest heads' s' d := by
  have hsplit : text ++ chr :: rest = (text ++ [chr]) ++ rest := by
    rw [List.append_assoc, List.singleton_append]
  have hdata : (c.str.drop c.effectiveLen).take
      (nextCharLen (c.str.drop c.effectiveLen)) = unicharToUtf8 chr := by
    rw [h.rubin_data]
    exact List.append_nil _
  have hbegins : unicharToUtf8 chr <+: c.str.drop c.effectiveLen := by
    rw [<- hdata]
    exact List.take_prefix _ _
  have hne : c.str ≠ [] := by
    intro hnil
    rw [hnil, List.drop_nil] at hbegins
    exact unicharToUtf8_ne_nil chr (List.prefix_nil.mp hbegins)
  have hinserting : (c.inserting I (unicharToUtf8 chr)).cmdline =
      { c.setPc I c.effectiveLen with
        effectiveLen := c.effectiveLen + (unicharToUtf8 chr).length } :=
    inserting_rubbedOut hbegins
  have hlength : (c.inserting I (unicharToUtf8 chr)).cmdline.effectiveLen =
      (encoded (text ++ [chr])).length := by
    rw [hinserting, encoded_snoc, <- h.effectiveLen]
  have hpc : (c.inserting I (unicharToUtf8 chr)).cmdline.pc =
      (encoded text).length := by
    rw [hinserting]
    exact h.effectiveLen
  have hrunning : Running I s₀ text (chr :: rest) heads s []
      (c.inserting I (unicharToUtf8 chr)).cmdline := by
    apply Running.begin h.back (h.effectiveLen ▸ h.logged) h.valid
    · rw [hinserting]
      exact h.str
    · exact hpc
    · rw [hinserting]
      rfl
    · rw [hinserting, <- h.effectiveLen]
      rfl
  have hplain' : Plain I s₀
      (c.inserting I (unicharToUtf8 chr)).cmdline.effectiveLen
      (encoded text).length (text ++ [chr]) := by
    intro front chr' hle hfront
    rw [hlength]
    rcases List.prefix_concat_iff.mp hfront with heq | hshort
    · rcases List.append_inj' heq rfl with ⟨rfl, hchr⟩
      cases hchr
      exact hplain
    · rcases hshort with ⟨more, rfl⟩
      rw [List.append_assoc, List.singleton_append] at hle
      exact absurd length_encoded_lt (Nat.not_lt.mpr hle)
  have hbytes : (encoded (text ++ [chr])).length =
      (encoded text).length + (unicharToUtf8 chr).length := encoded_snoc _ _
  rcases hrunning.goes (n := (unicharToUtf8 chr).length) hplain'
      (executed_succeeds hexecuted (encoded (text ++ [chr])).length) hsplit
      (by omega) (Nat.le_refl _) (by omega) with
    ⟨l, text', behind, heads₁, s₁, log, hgoes, hsame, hpc', hrunning', hsplit',
      _⟩
  rcases hrunning'.at_end hsplit' (by omega) with ⟨rfl, rfl, rfl⟩
  rcases hexecuted.unique hrunning'.back.executed with ⟨rfl, rfl⟩
  have hwithin : Within l.cmdline :=
    ⟨⟨text ++ [chr], behind, hrunning'.valid, hrunning'.str,
      hsame.effectiveLen.trans hlength⟩, by rw [hsame.effectiveLen]; omega⟩
  refine ⟨l.cmdline, ?_, ?_, hrunning'.ready hwithin
    (by rw [hsame.effectiveLen]; omega)⟩
  · unfold Cmdline.rubin Cmdline.insert
    dsimp only
    have hle := length_unicharToUtf8_le chr
    obtain ⟨more, hmore⟩ : exists more,
        fuel = (unicharToUtf8 chr).length + (more + 1) :=
      ⟨fuel - (unicharToUtf8 chr).length - 1, by omega⟩
    rw [hdata, if_neg hne, if_neg (Nat.not_lt.mpr h.length_le), hmore,
      hgoes.insertLoop_eq, insertLoop, if_neg]
    rw [hsame.effectiveLen]
    omega
  · rw [hsame.str, hinserting]
    rfl

/-- A number of characters is rubbed out. -/
theorem rubbed_times (h : Ready I s₀ (text ++ back) rest heads s c) :
    exists d heads' t, times Cmdline.rubout back.length c = .ok () d [] ∧
      d.str = c.str ∧ Ready I s₀ text (back ++ rest) heads' t d := by
  induction back using List.reverseRecOn generalizing rest heads s c with
  | nil =>
      rw [List.append_nil] at h
      exact ⟨c, heads, s, rfl, rfl, h⟩
  | append_singleton back chr ih =>
      rw [<- List.append_assoc] at h
      rcases h.rubbed with ⟨d, heads₁, t₁, hrun, hstr, hready⟩
      rcases ih hready with ⟨e, heads₂, t₂, hrest, hstr', hready'⟩
      refine ⟨e, heads₂, t₂, ?_, hstr'.trans hstr, ?_⟩
      · rw [List.length_append, List.length_singleton]
        exact times_succ hrun hrest
      · rw [List.append_assoc, List.singleton_append]
        exact hready'

/-- They are reinserted. -/
theorem reinserted_times (h : Ready I s₀ text (back ++ rest) heads s c)
    (hexecuted : Executed I s₀ (text ++ back) heads' s')
    (hplain : Deterministic I s₀ (text ++ back)) (hfuel : 7 ≤ fuel) :
    exists d, times (Cmdline.rubin I fuel) back.length c = .ok () d [] ∧
      d.str = c.str ∧ Ready I s₀ (text ++ back) rest heads' s' d := by
  induction back generalizing text heads s c with
  | nil =>
      rw [List.append_nil] at hexecuted ⊢
      rcases h.back.executed.unique hexecuted with ⟨rfl, rfl⟩
      exact ⟨c, rfl, rfl, h⟩
  | cons chr back ih =>
      have hsplit : text ++ chr :: back = (text ++ [chr]) ++ back := by
        rw [List.append_assoc, List.singleton_append]
      have hbegins : text ++ [chr] <+: text ++ chr :: back :=
        ⟨back, hsplit.symm⟩
      rw [hsplit] at hexecuted ⊢
      rcases hexecuted.front with ⟨t, hchr⟩
      rcases h.reinserted hchr (hplain text chr hbegins) hfuel with
        ⟨d, hrun, hstr, hready⟩
      rcases ih hready hexecuted (hsplit ▸ hplain) with
        ⟨e, hrest, hstr', hready'⟩
      exact ⟨e, times_succ hrun hrest, hstr'.trans hstr, hready'⟩

theorem reinserts (h : Ready I s₀ text rest heads s c)
    (hplain : Deterministic I s₀ text) (hfuel : 7 ≤ fuel) {n : Nat}
    (hn : n ≤ text.length) : Reinserts I fuel n c := by
  have hsplit := List.take_append_drop (text.length - n) text
  have hlength : (text.drop (text.length - n)).length = n := by
    rw [List.length_drop]
    omega
  obtain ⟨front, hfront⟩ : exists l, l = text.take (text.length - n) :=
    ⟨_, rfl⟩
  obtain ⟨back, hback⟩ : exists l, l = text.drop (text.length - n) := ⟨_, rfl⟩
  rw [<- hback] at hlength
  rw [<- hfront, <- hback] at hsplit
  subst hsplit
  subst hlength
  rcases h.rubbed_times with ⟨d, heads', t, hrubout, hstr, hready⟩
  rcases hready.reinserted_times h.back.executed hplain hfuel with
    ⟨e, hrubin, hstr', hready'⟩
  refine ⟨d, e, hrubout, hstr, hrubin, hstr'.trans hstr, ?_, ?_, ?_⟩
  · exact hready'.effectiveLen.trans h.effectiveLen.symm
  · exact hready'.machine.trans h.machine.symm
  · intro pos
    rw [hready'.back.tokensAt_eq (hready'.effectiveLen ▸ hready'.logged),
      h.back.tokensAt_eq (h.effectiveLen ▸ h.logged)]

end Ready

/-- In sessions that do not run into one of the branches that go wrong,
characters can be rubbed out and reinserted. -/
theorem session_reinserts {callback : Gunichar -> Edits σ} {init : σ}
    (h : SafeSession I fuel callback init c) (hfuel : 7 ≤ fuel)
    (hplain : forall s₀, Begins I init s₀ ->
      Deterministic I s₀ (characters (c.str.take c.effectiveLen)))
    {n : Nat} (hn : n ≤ (characters (c.str.take c.effectiveLen)).length) :
    Reinserts I fuel n c := by
  rcases h.between with ⟨s₀, text, rest, heads, s, hbegins, hready⟩
  have htext : characters (c.str.take c.effectiveLen) = text := by
    rw [hready.effective]
    exact characters_encoded hready.valid.left
  rw [htext] at hplain hn
  exact hready.reinserts (hplain s₀ hbegins) hfuel hn

/-- A letter is rubbed out and reinserted. -/
theorem letter_reinserts :
    exists c : Cmdline Recording,
      SafeSession recorder 10 recorderKeys ⟨[], []⟩ c ∧
        Reinserts recorder 10 1 c := by
  rcases letter_session with ⟨c, hsession, hstr, hlength⟩
  refine ⟨c, hsession, session_reinserts hsession (by decide) ?_ ?_⟩
  · intro s₀ _ front chr _
    exact plainAt_of_steady recorder_steady recorder_restores _ _ _
  · rw [hstr, hlength]
    decide

/-- A digit is rubbed out by a key string that ends with an error. -/
theorem failed_key_string :
    exists c : Cmdline Recording, Session recorder 10 recorderKeys ⟨[], []⟩ c ∧
      (forall s₀ text, Deterministic recorder s₀ text) ∧
      1 ≤ (characters (c.str.take c.effectiveLen)).length ∧
      ¬ Reinserts recorder 10 1 c := by
  have hkeys : (typeKeys recorder 10 recorderKeys [[0x31], [0x08, 0x29]]
      (empty ⟨[], []⟩)).map (fun c => (c.str, c.effectiveLen)) =
        some ([0x29], 1) := by
    decide +kernel
  rcases Option.map_eq_some_iff.mp hkeys with ⟨c, hrun, hc⟩
  refine ⟨c, Session.typed Session.start hrun, ?_, ?_, ?_⟩
  · intro s₀ text front chr _
    exact plainAt_of_steady recorder_steady recorder_restores _ _ _
  · rw [(Prod.mk.inj hc).1, (Prod.mk.inj hc).2]
    decide
  · intro hreinserts
    rcases hreinserts with ⟨d, e, hrubout, hstr, hrubin, _⟩
    cases hrun
    cases hrubout
    cases hrubin

end Cmdline
end SciTECO
