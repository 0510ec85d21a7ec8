import Mathlib.Data.List.Forall2
import SymbolRecord.Run
/-!
# Runs over lists

What a run over a list yields is put together from what the runs over its members yield.  Three
things are followed through sequences and lists of runs: the outcome, the requests to register a
type, and the causes of failure.

* `Run.andThen_eq_ok`, `Run.forAll_eq_ok_iff`: when a sequence or a list succeeds, and with what.
* `Run.forAll_eq_error_iff`, `Run.forAll_append`: going over a list part by part.
* `Run.exists_forAll`, `Run.forAll_of_forAll`: what holds of one member after another round holds
  of the whole list.
* `Run.Quiet`: runs that register nothing.
* `Run.FailsBy`: runs that fail for certain causes only.
-/

namespace SymbolRecord

namespace Run

variable {α β γ δ ε : Type}

/-! ## Outcomes -/

theorem andThen_eq_ok {run : Run α} {next : α → Run β} {b : β} :
    (run.andThen next).outcome = .ok b ↔
      ∃ a, run.outcome = .ok a ∧ (next a).outcome = .ok b := by
  rw [outcome_andThen]
  cases run.outcome with
  | error failure => simp [Except.bind]
  | ok a => simp [Except.bind]

theorem andThen_eq_error {run : Run α} {next : α → Run β} {failure : Failure} :
    (run.andThen next).outcome = .error failure ↔
      run.outcome = .error failure ∨
        ∃ a, run.outcome = .ok a ∧ (next a).outcome = .error failure := by
  rw [outcome_andThen]
  cases run.outcome with
  | error failure => simp [Except.bind]
  | ok a => simp [Except.bind]

theorem forAll_nil_eq_ok {f : α → Run β} {bs : List β} :
    (forAll f []).outcome = .ok bs ↔ bs = [] := by
  rw [forAll, outcome_ok, Except.ok.injEq, eq_comm]

theorem forAll_cons_eq_ok {f : α → Run β} {a : α} {rest : List α} {cs : List β} :
    (forAll f (a :: rest)).outcome = .ok cs ↔
      ∃ b bs, (f a).outcome = .ok b ∧ (forAll f rest).outcome = .ok bs ∧ cs = b :: bs := by
  rw [forAll, andThen_eq_ok]
  constructor
  · rintro ⟨b, hb, h⟩
    obtain ⟨bs, hbs, h⟩ := andThen_eq_ok.mp h
    exact ⟨b, bs, hb, hbs, (Except.ok.inj h).symm⟩
  · rintro ⟨b, bs, hb, hbs, rfl⟩
    exact ⟨b, hb, andThen_eq_ok.mpr ⟨bs, hbs, rfl⟩⟩

/-- A list is gone over with success when each member is, and yields what they do in order. -/
theorem forAll_eq_ok_iff {f : α → Run β} :
    ∀ {as : List α} {bs : List β}, (forAll f as).outcome = .ok bs ↔
      List.Forall₂ (fun a b => (f a).outcome = .ok b) as bs
  | [], bs => by rw [forAll_nil_eq_ok, List.forall₂_nil_left_iff]
  | a :: rest, bs => by
    rw [forAll_cons_eq_ok, List.forall₂_cons_left_iff]
    constructor
    · rintro ⟨b, bs, hb, hbs, rfl⟩
      exact ⟨b, bs, hb, forAll_eq_ok_iff.mp hbs, rfl⟩
    · rintro ⟨b, bs, hb, hbs, rfl⟩
      exact ⟨b, bs, hb, forAll_eq_ok_iff.mpr hbs, rfl⟩

/-- Going over a list, and then over all that it yields, is taking each member through both. -/
theorem forAll_forAll_eq_ok_iff {f : α → Run β} {g : β → Run γ} {as : List α} {cs : List γ} :
    (∃ bs, (forAll f as).outcome = .ok bs ∧ (forAll g bs).outcome = .ok cs) ↔
      List.Forall₂ (fun a c => ∃ b, (f a).outcome = .ok b ∧ (g b).outcome = .ok c) as cs := by
  simp only [forAll_eq_ok_iff]
  induction as generalizing cs with
  | nil =>
    simp only [List.forall₂_nil_left_iff]
    constructor
    · rintro ⟨bs, rfl, hcs⟩
      exact List.forall₂_nil_left_iff.mp hcs
    · rintro rfl
      exact ⟨[], rfl, .nil⟩
  | cons a as ih =>
    rw [List.forall₂_cons_left_iff]
    constructor
    · rintro ⟨bs, hbs, hcs⟩
      obtain ⟨b, bs, hb, hrest, rfl⟩ := List.forall₂_cons_left_iff.mp hbs
      obtain ⟨c, cs, hc, hwritten, rfl⟩ := List.forall₂_cons_left_iff.mp hcs
      exact ⟨c, cs, ⟨b, hb, hc⟩, ih.mp ⟨bs, hrest, hwritten⟩, rfl⟩
    · rintro ⟨c, cs, ⟨b, hb, hc⟩, hrest, rfl⟩
      obtain ⟨bs, hbs, hcs⟩ := ih.mpr hrest
      exact ⟨b :: bs, .cons hb hbs, .cons hc hcs⟩

/-- Where a list is gone over with success, each member is. -/
theorem exists_of_forAll_eq_ok {f : α → Run β} :
    ∀ {as : List α} {bs : List β}, (forAll f as).outcome = .ok bs →
      ∀ a ∈ as, ∃ b, (f a).outcome = .ok b
  | [], _, _ => fun _ hmem => absurd hmem List.not_mem_nil
  | first :: rest, _, h => by
    obtain ⟨b, bs, hb, hbs, -⟩ := forAll_cons_eq_ok.mp h
    intro a ha
    rcases List.mem_cons.mp ha with rfl | ha
    · exact ⟨b, hb⟩
    · exact exists_of_forAll_eq_ok hbs a ha

theorem exists_forAll_eq_ok {f : α → Run β} :
    ∀ {as : List α}, (∀ a ∈ as, ∃ b, (f a).outcome = .ok b) →
      ∃ bs, (forAll f as).outcome = .ok bs
  | [], _ => ⟨[], rfl⟩
  | a :: rest, h => by
    obtain ⟨b, hb⟩ := h a List.mem_cons_self
    obtain ⟨bs, hbs⟩ := exists_forAll_eq_ok fun c hc => h c (List.mem_cons_of_mem a hc)
    exact ⟨b :: bs, forAll_cons_eq_ok.mpr ⟨b, bs, hb, hbs, rfl⟩⟩

/-- What a list yields when it is known what each of its members yields. -/
theorem outcome_forAll {f : α → Run β} {g : α → β} :
    ∀ {as : List α}, (∀ a ∈ as, (f a).outcome = .ok (g a)) →
      (forAll f as).outcome = .ok (as.map g)
  | [], _ => rfl
  | a :: rest, h => by
    obtain ⟨ha, hrest⟩ := List.forall_mem_cons.mp h
    exact forAll_cons_eq_ok.mpr ⟨g a, rest.map g, ha, outcome_forAll hrest, rfl⟩

/-- What a list is gone over with success yields, comes from its members. -/
theorem exists_of_mem_forAll {f : α → Run β} :
    ∀ {as : List α} {bs : List β}, (forAll f as).outcome = .ok bs →
      ∀ b ∈ bs, ∃ a ∈ as, (f a).outcome = .ok b
  | [], bs, h => by
    rw [forAll_nil_eq_ok.mp h]
    exact fun _ hmem => absurd hmem List.not_mem_nil
  | a :: rest, cs, h => by
    obtain ⟨b, bs, hb, hbs, rfl⟩ := forAll_cons_eq_ok.mp h
    intro c hc
    rcases List.mem_cons.mp hc with rfl | hc
    · exact ⟨a, List.mem_cons_self, hb⟩
    · obtain ⟨a', ha', hc⟩ := exists_of_mem_forAll hbs c hc
      exact ⟨a', List.mem_cons_of_mem a ha', hc⟩

theorem length_of_forAll {f : α → Run β} {as : List α} {bs : List β}
    (h : (forAll f as).outcome = .ok bs) : bs.length = as.length :=
  (forAll_eq_ok_iff.mp h).length_eq.symm

/-- A list is gone over with a failure at its first member that fails. -/
theorem forAll_eq_error_iff {f : α → Run β} {failure : Failure} :
    ∀ {as : List α}, (forAll f as).outcome = .error failure ↔
      ∃ before a after, as = before ++ a :: after ∧
        (∀ c ∈ before, ∃ b, (f c).outcome = .ok b) ∧ (f a).outcome = .error failure
  | [] => by
    refine iff_of_false (fun h => nomatch h) ?_
    rintro ⟨before, a, after, hsplit, -⟩
    exact absurd hsplit (by simp)
  | first :: rest => by
    rw [forAll, andThen_eq_error]
    constructor
    · rintro (hfirst | ⟨b, hfirst, h⟩)
      · exact ⟨[], first, rest, rfl, fun _ hmem => absurd hmem List.not_mem_nil, hfirst⟩
      · rcases andThen_eq_error.mp h with hrest | ⟨_, -, hok⟩
        · obtain ⟨before, a, after, rfl, hbefore, ha⟩ := forAll_eq_error_iff.mp hrest
          exact ⟨first :: before, a, after, rfl,
            List.forall_mem_cons.mpr ⟨⟨b, hfirst⟩, hbefore⟩, ha⟩
        · nomatch hok
    · rintro ⟨before, a, after, hsplit, hbefore, ha⟩
      cases before with
      | nil =>
        obtain ⟨rfl, rfl⟩ := List.cons.inj hsplit
        exact Or.inl ha
      | cons other before =>
        obtain ⟨rfl, rfl⟩ := List.cons.inj hsplit
        obtain ⟨⟨b, hb⟩, hothers⟩ := List.forall_mem_cons.mp hbefore
        exact Or.inr ⟨b, hb, andThen_eq_error.mpr
          (Or.inl (forAll_eq_error_iff.mpr ⟨before, a, after, rfl, hothers, ha⟩))⟩

theorem andThen_assoc (run : Run α) (f : α → Run β) (g : β → Run γ) :
    (run.andThen f).andThen g = run.andThen fun a => (f a).andThen g := by
  obtain ⟨events, outcome⟩ := run
  cases outcome with
  | error failure => rfl
  | ok a =>
    cases hf : (f a).outcome with
    | error failure => simp only [andThen, hf]
    | ok b => simp only [andThen, hf, List.append_assoc]

@[simp] theorem ok_andThen (a : α) (f : α → Run β) : (ok a).andThen f = f a := rfl

/-- Going over two lists is going over the first and then over the second. -/
theorem forAll_append (f : α → Run β) (bs : List α) :
    ∀ as : List α, forAll f (as ++ bs) =
      (forAll f as).andThen fun xs => (forAll f bs).andThen fun ys => ok (xs ++ ys)
  | [] => by
    show forAll f bs = (forAll f bs).andThen ok
    unfold andThen
    cases hbs : (forAll f bs).outcome <;> simp [ok, ← hbs]
  | a :: as => by
    rw [List.cons_append, forAll, forAll, forAll_append f bs as]
    simp only [andThen_assoc, ok_andThen, List.cons_append]

/-- What one round makes of each member, another round makes of what is made of the member. -/
theorem forAll_of_forAll {f : α → Run β} {g : α → Run γ} {k : γ → Run β} :
    ∀ {as : List α} {bs : List β} {cs : List γ},
      (∀ a ∈ as, ∀ b c, (f a).outcome = .ok b → (g a).outcome = .ok c → (k c).outcome = .ok b) →
      (forAll f as).outcome = .ok bs → (forAll g as).outcome = .ok cs →
      (forAll k cs).outcome = .ok bs
  | [], bs, cs, _, hf, hg => by
    obtain rfl := forAll_nil_eq_ok.mp hf
    obtain rfl := forAll_nil_eq_ok.mp hg
    rfl
  | a :: as, bs, cs, hone, hf, hg => by
    obtain ⟨b, bs, hb, hbs, rfl⟩ := forAll_cons_eq_ok.mp hf
    obtain ⟨c, cs, hc, hcs, rfl⟩ := forAll_cons_eq_ok.mp hg
    obtain ⟨hfirst, hrest⟩ := List.forall_mem_cons.mp hone
    exact forAll_cons_eq_ok.mpr ⟨b, bs, hfirst b c hb hc, forAll_of_forAll hrest hbs hcs, rfl⟩

theorem forAll_map {f : β → Run γ} (g : α → β) :
    ∀ as : List α, forAll f (as.map g) = forAll (fun a => f (g a)) as
  | [] => rfl
  | a :: as => by rw [List.map_cons, forAll, forAll, forAll_map g as]

/-- If reading back what was made of one member makes the same again, up to `k`, then so does
reading back what was made of a whole list. -/
theorem exists_forAll {f : α → Run β} {g : β → Run γ} {f' : δ → Run β} {h : γ → δ} {k : γ → ε}
    (hone : ∀ a b c, (f a).outcome = .ok b → (g b).outcome = .ok c →
      ∃ b' c', (f' (h c)).outcome = .ok b' ∧ (g b').outcome = .ok c' ∧ k c' = k c) :
    ∀ {as : List α} {bs : List β} {cs : List γ}, (forAll f as).outcome = .ok bs →
      (forAll g bs).outcome = .ok cs →
      ∃ bs' cs', (forAll f' (cs.map h)).outcome = .ok bs' ∧ (forAll g bs').outcome = .ok cs' ∧
        cs'.map k = cs.map k
  | [], bs, cs, hf, hg => by
    obtain rfl := forAll_nil_eq_ok.mp hf
    obtain rfl := forAll_nil_eq_ok.mp hg
    exact ⟨[], [], rfl, rfl, rfl⟩
  | a :: as, bs, cs, hf, hg => by
    obtain ⟨b, bs, hb, hbs, rfl⟩ := forAll_cons_eq_ok.mp hf
    obtain ⟨c, cs, hc, hcs, rfl⟩ := forAll_cons_eq_ok.mp hg
    obtain ⟨b', c', hb', hc', hk⟩ := hone a b c hb hc
    obtain ⟨bs', cs', hbs', hcs', hks⟩ := exists_forAll hone hbs hcs
    refine ⟨b' :: bs', c' :: cs', forAll_cons_eq_ok.mpr ⟨b', bs', hb', hbs', rfl⟩,
      forAll_cons_eq_ok.mpr ⟨c', cs', hc', hcs', rfl⟩, ?_⟩
    rw [List.map_cons, List.map_cons, hk, hks]

/-- What holds of what is made of one member if and only if something holds of the member, does so
of all that is made of a list. -/
theorem forall_iff_of_forAll {f : α → Run β} {g : β → Run γ} {p : γ → Prop} {q : β → Prop}
    (hone : ∀ a b c, (f a).outcome = .ok b → (g b).outcome = .ok c → (p c ↔ q b)) :
    ∀ {as : List α} {bs : List β} {cs : List γ}, (forAll f as).outcome = .ok bs →
      (forAll g bs).outcome = .ok cs → ((∀ c ∈ cs, p c) ↔ ∀ b ∈ bs, q b)
  | [], bs, cs, hf, hg => by
    obtain rfl := forAll_nil_eq_ok.mp hf
    rw [forAll_nil_eq_ok.mp hg]
    exact iff_of_true (fun _ hmem => absurd hmem List.not_mem_nil)
      fun _ hmem => absurd hmem List.not_mem_nil
  | a :: as, bs, cs, hf, hg => by
    obtain ⟨b, bs, hb, hbs, rfl⟩ := forAll_cons_eq_ok.mp hf
    obtain ⟨c, cs, hc, hcs, rfl⟩ := forAll_cons_eq_ok.mp hg
    rw [List.forall_mem_cons, List.forall_mem_cons, hone a b c hb hc,
      forall_iff_of_forAll hone hbs hcs]

/-- What holds of all that is made of one member holds of all that is made of a list. -/
theorem forall_of_forAll {f : α → Run β} {g : β → Run γ} {p : γ → Prop}
    (hone : ∀ a b c, (f a).outcome = .ok b → (g b).outcome = .ok c → p c) {as : List α}
    {bs : List β} {cs : List γ} (hf : (forAll f as).outcome = .ok bs)
    (hg : (forAll g bs).outcome = .ok cs) : ∀ c ∈ cs, p c :=
  (forall_iff_of_forAll (q := fun _ => True)
    (fun a b c hb hc => iff_of_true (hone a b c hb hc) trivial) hf hg).mpr fun _ _ => trivial

/-! ## Requests to register a type -/

/-- A run is quiet when it does not ask to register a type. -/
def Quiet (run : Run α) : Prop := ∀ type, Event.register type ∉ run.events

theorem quiet_of_nil {run : Run α} (h : run.events = []) : run.Quiet := by
  intro type hmem
  rw [h] at hmem
  exact absurd hmem List.not_mem_nil

theorem quiet_log (logger message : String) : (log logger message).Quiet := by
  intro type hmem
  exact nomatch List.mem_singleton.mp hmem

theorem Quiet.andThen {run : Run α} {next : α → Run β} (h : run.Quiet)
    (hnext : ∀ a, run.outcome = .ok a → (next a).Quiet) : (run.andThen next).Quiet := by
  intro type hmem
  unfold Run.andThen at hmem
  split at hmem
  · next a ha =>
    rcases List.mem_append.mp hmem with hmem | hmem
    · exact h type hmem
    · exact hnext a ha type hmem
  · exact h type hmem

theorem quiet_forAll {f : α → Run β} (h : ∀ a, (f a).Quiet) : ∀ as : List α, (forAll f as).Quiet
  | [] => quiet_of_nil rfl
  | a :: as =>
    (h a).andThen fun _ _ => (quiet_forAll h as).andThen fun _ _ => quiet_of_nil rfl

/-! ## Causes of failure -/

/-- A run fails for causes of one sort only. -/
def FailsBy (p : Failure → Prop) (run : Run α) : Prop :=
  ∀ failure, run.outcome = .error failure → p failure

variable {p : Failure → Prop}

theorem failsBy_of_ok {run : Run α} {a : α} (h : run.outcome = .ok a) : run.FailsBy p := by
  intro failure hfailure
  exact absurd (h.symm.trans hfailure) (by simp)

theorem failsBy_fail {failure : Failure} (h : p failure) : (fail failure : Run α).FailsBy p := by
  intro failure' heq
  rwa [← Except.error.inj heq]

theorem FailsBy.andThen {run : Run α} {next : α → Run β} (h : run.FailsBy p)
    (hnext : ∀ a, (next a).FailsBy p) : (run.andThen next).FailsBy p := by
  intro failure hfailure
  rcases andThen_eq_error.mp hfailure with hrun | ⟨a, -, hnext'⟩
  · exact h failure hrun
  · exact hnext a failure hnext'

end Run

end SymbolRecord
