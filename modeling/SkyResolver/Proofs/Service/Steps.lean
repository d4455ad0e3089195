import Mathlib.Data.List.Forall2
import Mathlib.Tactic.Lemma
import SkyResolver.Service.Basic

/-! Steps that keep an invariant. A step is settled when its result is the same from every state
with the invariant. -/
namespace SkyResolver

/-- From every state with the invariant the step gets to one, with a result as promised. -/
def Maintains {σ α : Type} (inv : σ → Prop) (post : α → Prop) (step : StateM σ α) : Prop :=
  ∀ s, inv s → post (step.run s).1 ∧ inv (step.run s).2

/-- The result of the step is the same from every state with the invariant. -/
def Settled {σ α : Type} (inv : σ → Prop) (step : StateM σ α) : Prop :=
  ∃ a, Maintains inv (· = a) step

section Steps
variable {σ α β : Type} {inv : σ → Prop}

/-! ### Sequences of steps -/

lemma Maintains.pure {post : α → Prop} {a : α} (h : post a) :
    Maintains inv post (pure a : StateM σ α) := fun _ hs => ⟨h, hs⟩

lemma Maintains.mono {post post' : α → Prop} {step : StateM σ α} (h : Maintains inv post step)
    (hpost : ∀ a, post a → post' a) : Maintains inv post' step := by
  intro s hs
  obtain ⟨ha, hs'⟩ := h s hs
  exact ⟨hpost _ ha, hs'⟩

lemma Maintains.bind {mid : α → Prop} {post : β → Prop} {step : StateM σ α} {next : α → StateM σ β}
    (h : Maintains inv mid step) (hnext : ∀ a, mid a → Maintains inv post (next a)) :
    Maintains inv post (step >>= next) := by
  intro s hs
  obtain ⟨ha, hs'⟩ := h s hs
  exact hnext _ ha _ hs'

/-- Steps that keep the invariant keep it together, whatever comes of them. -/
lemma Maintains.keep_bind {step : StateM σ α} {next : α → StateM σ β}
    (h : Maintains inv (fun _ => True) step) (hnext : ∀ a, Maintains inv (fun _ => True) (next a)) :
    Maintains inv (fun _ => True) (step >>= next) := h.bind fun a _ => hnext a

lemma Maintains.keep {post : α → Prop} {step : StateM σ α} (h : Maintains inv post step) :
    Maintains inv (fun _ => True) step := h.mono fun _ _ => trivial

lemma Maintains.mapM {post : α → β → Prop} {f : α → StateM σ β} {l : List α}
    (h : ∀ a ∈ l, Maintains inv (post a) (f a)) :
    Maintains inv (List.Forall₂ post l) (l.mapM f) := by
  induction l with
  | nil => exact .pure .nil
  | cons a l ih =>
    rw [List.mapM_cons]
    refine (h a (by simp)).bind fun b hb => ?_
    refine (ih fun a' ha' => h a' (List.mem_cons_of_mem a ha')).bind fun bs hbs => ?_
    exact .pure (.cons hb hbs)

lemma Settled.pure (a : α) : Settled inv (pure a : StateM σ α) := ⟨a, .pure rfl⟩

lemma Settled.bind {step : StateM σ α} {next : α → StateM σ β} (h : Settled inv step)
    (hnext : ∀ a, Settled inv (next a)) : Settled inv (step >>= next) := by
  obtain ⟨a, ha⟩ := h
  obtain ⟨b, hb⟩ := hnext a
  refine ⟨b, ha.bind ?_⟩
  rintro _ rfl
  exact hb

lemma Settled.map {step : StateM σ α} (h : Settled inv step) (f : α → β) :
    Settled inv (f <$> step) := by
  obtain ⟨a, ha⟩ := h
  exact ⟨f a, fun s hs => ⟨congrArg f (ha s hs).1, (ha s hs).2⟩⟩

lemma Settled.mapM {f : α → StateM σ β} {l : List α} (h : ∀ a ∈ l, Settled inv (f a)) :
    Settled inv (l.mapM f) := by
  induction l with
  | nil => exact .pure []
  | cons a l ih =>
    rw [List.mapM_cons]
    refine (h a (by simp)).bind fun b => ?_
    exact (ih fun a' ha' => h a' (List.mem_cons_of_mem a ha')).bind fun bs => .pure _

lemma Settled.eq {step : StateM σ α} (h : Settled inv step) {s t : σ} (hs : inv s) (ht : inv t) :
    (step.run s).1 = (step.run t).1 := by
  obtain ⟨a, ha⟩ := h
  exact (ha s hs).1.trans (ha t ht).1.symm

lemma bind_apply (step : StateM σ α) (next : α → StateM σ β) (s : σ) :
    (step >>= next) s = next (step s).1 (step s).2 := rfl

/-! ### The same step for each item of a list -/

lemma run_mapM_cons (f : α → StateM σ β) (a : α) (l : List α) (s : σ) : (a :: l).mapM f s =
    ((f a s).1 :: (l.mapM f (f a s).2).1, (l.mapM f (f a s).2).2) := by
  rw [List.mapM_cons]
  rfl

/-- The state from which the step for the `i`-th item is made. -/
def stateAt (f : α → StateM σ β) (l : List α) (s : σ) (i : Nat) : σ := ((l.take i).mapM f s).2

lemma getElem?_mapM (f : α → StateM σ β) (l : List α) (s : σ) (i : Nat) :
    (l.mapM f s).1[i]? = l[i]?.map fun a => (f a (stateAt f l s i)).1 := by
  induction l generalizing s i with
  | nil => rfl
  | cons a l ih =>
    rw [run_mapM_cons]
    cases i with
    | zero => rfl
    | succ i =>
      rw [stateAt, List.take_succ_cons, run_mapM_cons]
      exact ih (f a s).2 i

lemma run_mapM_drop (f : α → StateM σ β) (l : List α) (s : σ) (i : Nat) :
    ((l.drop i).mapM f (stateAt f l s i)).2 = (l.mapM f s).2 := by
  conv => rhs; rw [← List.take_append_drop i l, List.mapM_append]
  rfl

lemma Maintains.stateAt {f : α → StateM σ β} {l : List α}
    (h : ∀ a ∈ l, Maintains inv (fun _ => True) (f a)) {s : σ} (hs : inv s) (i : Nat) :
    inv (stateAt f l s i) :=
  (Maintains.mapM (l := l.take i) (fun a ha => h a (List.mem_of_mem_take ha)) s hs).2

/-! ### Steps that may fail -/

variable {ε : Type}

lemma run_bind (step : ExceptT ε (StateM σ) α) (next : α → ExceptT ε (StateM σ) β) (s : σ) :
    (step >>= next).run s = match step.run s with
      | (.ok a, s) => (next a).run s
      | (.error e, s) => (.error e, s) := by
  rw [ExceptT.run_bind, bind_apply]
  rcases step.run s with ⟨_ | _, _⟩ <;> rfl

lemma Maintains.bind_run {mid : Except ε α → Prop} {post : Except ε β → Prop}
    {step : ExceptT ε (StateM σ) α} {next : α → ExceptT ε (StateM σ) β}
    (h : Maintains inv mid step.run) (hok : ∀ a, mid (.ok a) → Maintains inv post (next a).run)
    (herror : ∀ e, mid (.error e) → post (.error e)) :
    Maintains inv post (step >>= next).run := by
  rw [ExceptT.run_bind]
  refine Maintains.bind h fun result hresult => ?_
  cases result with
  | ok a => exact hok a hresult
  | error e => exact .pure (herror e hresult)

lemma Maintains.keep_bind_run {step : ExceptT ε (StateM σ) α} {next : α → ExceptT ε (StateM σ) β}
    (h : Maintains inv (fun _ => True) step.run)
    (hnext : ∀ a, Maintains inv (fun _ => True) (next a).run) :
    Maintains inv (fun _ => True) (step >>= next).run :=
  h.bind_run (fun a _ => hnext a) fun _ _ => trivial

lemma Maintains.mk_pure_bind_run {post : Except ε β → Prop} {result : Except ε α}
    {next : α → ExceptT ε (StateM σ) β}
    (hok : ∀ a, result = .ok a → Maintains inv post (next a).run)
    (herror : ∀ e, result = .error e → post (.error e)) :
    Maintains inv post (ExceptT.mk (Pure.pure result) >>= next).run := by
  cases result with
  | ok a => exact hok a rfl
  | error e => exact .pure (herror e rfl)

lemma Settled.bind_run {step : ExceptT ε (StateM σ) α} {next : α → ExceptT ε (StateM σ) β}
    (h : Settled inv step.run) (hnext : ∀ a, Settled inv (next a).run) :
    Settled inv (step >>= next).run := by
  rw [ExceptT.run_bind]
  refine h.bind fun result => ?_
  cases result with
  | ok a => exact hnext a
  | error e => exact .pure _

lemma Settled.mk_pure_bind_run {result : Except ε α} {next : α → ExceptT ε (StateM σ) β}
    (h : ∀ a, result = .ok a → Settled inv (next a).run) :
    Settled inv (ExceptT.mk (Pure.pure result) >>= next).run := by
  cases result with
  | ok a => exact h a rfl
  | error e => exact .pure _

lemma Maintains.lift_run {post : α → Prop} {step : StateM σ α} (h : Maintains inv post step) :
    Maintains inv (fun result => ∃ a, result = .ok a ∧ post a)
      (ExceptT.lift step : ExceptT ε (StateM σ) α).run := by
  rw [ExceptT.run_lift]
  exact fun s hs => ⟨⟨_, rfl, (h s hs).1⟩, (h s hs).2⟩

lemma Settled.lift_run {step : StateM σ α} (h : Settled inv step) :
    Settled inv (ExceptT.lift step : ExceptT ε (StateM σ) α).run := by
  rw [ExceptT.run_lift]
  exact h.map Except.ok

end Steps

/-! ### Steps of the world -/

section World
variable {σ α : Type} {inv : NameCache → Prop}

lemma Maintains.onWorld {post : α → Prop} {step : StateM σ α}
    (h : Maintains (fun _ => True) post step) :
    Maintains (fun session : Session σ => inv session.cache) post (onWorld step) :=
  fun session hsession => ⟨(h session.world trivial).1, hsession⟩

lemma Settled.onWorld {step : StateM σ α} (h : Settled (fun _ => True) step) :
    Settled (fun session : Session σ => inv session.cache) (onWorld step) := by
  obtain ⟨a, ha⟩ := h
  exact ⟨a, ha.onWorld⟩

/-- A step of the world whose result does not depend on the world is settled. -/
lemma Settled.of_eq {step : StateM σ α} {a : α} (h : ∀ world, (step world).1 = a) :
    Settled (fun _ => True) step := ⟨a, fun world _ => ⟨h world, trivial⟩⟩

end World

end SkyResolver
