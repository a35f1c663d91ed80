/-
  Loops of C programs that may fault.

  * `walk f` is `while (p) { f(p); p = p->next; }` over a linked list: each
    node is updated in place, a state is threaded through, and a fault stops
    the walk;
  * `poll round again` is `while (1) { round; if (!again) break; }`, with fuel
    for the number of rounds.

  `walk_spec`, `walk_total` and `walk_error` are the rules for invariants of a walk,
  `walk_get` and `walk_get_before` those for a single node, `Pointwise.walk` that for
  what becomes of each node, and `walk_done` that for a log of the walk.  `rounds_inv`,
  `rounds_done` and `poll_bounded` are those for polling; `Ends n` says that a polling
  loop ends after exactly `n` rounds, `Polls n` that it gets to round `n`.
-/
import Mathlib.Data.List.Basic
import Mathlib.Tactic.Common

namespace Loops

variable {ε σ α β : Type}

theorem bind_eq_ok {x : Except ε α} {f : α → Except ε β} {b : β} :
    x >>= f = .ok b ↔ ∃ a, x = .ok a ∧ f a = .ok b := by
  cases x with
  | error e => simp [bind, Except.bind]
  | ok a => simp [bind, Except.bind]

theorem bind_eq_error {x : Except ε α} {f : α → Except ε β} {e : ε} :
    x >>= f = .error e ↔ x = .error e ∨ ∃ a, x = .ok a ∧ f a = .error e := by
  cases x with
  | error e => simp [bind, Except.bind]
  | ok a => simp [bind, Except.bind]

theorem exists_bind_eq_ok {x : Except ε α} {f : α → Except ε β} :
    (∃ b, x >>= f = .ok b) ↔ ∃ a, x = .ok a ∧ ∃ b, f a = .ok b := by
  simp only [bind_eq_ok]
  constructor
  · rintro ⟨b, a, ha, hb⟩
    exact ⟨a, ha, b, hb⟩
  · rintro ⟨a, ha, b, hb⟩
    exact ⟨b, a, ha, hb⟩

/-- A map whose calls all succeed. -/
theorem mapM_eq_ok {f : α → Except ε β} {g : α → β} {as : List α} (h : ∀ a ∈ as, f a = .ok (g a)) :
    as.mapM f = .ok (as.map g) := by
  induction as with
  | nil => rfl
  | cons a as ih =>
    have has := ih fun b hb => h b (List.mem_cons_of_mem _ hb)
    rw [List.mapM_cons, h a List.mem_cons_self, has]
    rfl

/-! ## Walking a linked list -/

section
variable (f : ℕ → α → σ → Except ε (α × σ))

/-- Apply `f` to the nodes of a list in order, from index `i` on. -/
def walk : ℕ → List α → σ → Except ε (List α × σ)
  | _, [], s => .ok ([], s)
  | i, a :: as, s => do
    let (a', s') ← f i a s
    let (as', s'') ← walk (i + 1) as s'
    .ok (a' :: as', s'')

variable {f}

theorem walk_cons {i : ℕ} {a : α} {as l : List α} {s s'' : σ} :
    walk f i (a :: as) s = .ok (l, s'') ↔
      ∃ a' s' as', f i a s = .ok (a', s') ∧ walk f (i + 1) as s' = .ok (as', s'') ∧
        l = a' :: as' := by
  simp only [walk, bind_eq_ok, Prod.exists, Except.ok.injEq, Prod.mk.injEq]
  constructor
  · rintro ⟨a', s', h, as', t, hw, rfl, rfl⟩
    exact ⟨a', s', as', h, hw, rfl⟩
  · rintro ⟨a', s', as', h, hw, rfl⟩
    exact ⟨a', s', h, as', s'', hw, rfl, rfl⟩

theorem walk_singleton {i : ℕ} {a : α} {s : σ} :
    walk f i [a] s = f i a s >>= fun r => .ok ([r.1], r.2) := by
  simp only [walk]
  cases f i a s with
  | error e => rfl
  | ok r => rfl

/-- **Invariants of a walk.**  If one step keeps `P`, a walk does, and every node of the result
    comes from the node at its place by one step. -/
theorem walk_spec {P : ℕ → σ → Prop} {as as' : List α} {s s' : σ} {i : ℕ}
    (hstep : ∀ k a t a' t', as[k]? = some a → P k t → f (i + k) a t = .ok (a', t') → P (k + 1) t')
    (h₀ : P 0 s) (hw : walk f i as s = .ok (as', s')) :
    P as.length s' ∧ as'.length = as.length ∧ ∀ k a, as[k]? = some a →
      ∃ a' t t', as'[k]? = some a' ∧ P k t ∧ f (i + k) a t = .ok (a', t') := by
  induction as generalizing i s as' P with
  | nil =>
    simp only [walk, Except.ok.injEq, Prod.mk.injEq] at hw
    obtain ⟨rfl, rfl⟩ := hw
    exact ⟨h₀, rfl, by simp⟩
  | cons b as ih =>
    obtain ⟨b', t, l, hf, hw', rfl⟩ := walk_cons.1 hw
    have hP : P 1 t := hstep 0 b s b' t rfl h₀ hf
    obtain ⟨h1, h2, h3⟩ := ih (P := fun k => P (k + 1)) (fun k a u a' u' ha hu hf' =>
      hstep (k + 1) a u a' u' (by simpa using ha) hu
        (by rwa [show i + (k + 1) = i + 1 + k by omega])) hP hw'
    refine ⟨h1, by simp [h2], ?_⟩
    intro k a ha
    cases k with
    | zero =>
      obtain rfl : b = a := by simpa using ha
      exact ⟨b', s, t, rfl, h₀, hf⟩
    | succ k =>
      obtain ⟨a', u, u', e1, e2, e3⟩ := h3 k a (by simpa using ha)
      exact ⟨a', u, u', by simpa using e1, e2, by rwa [show i + (k + 1) = i + 1 + k by omega]⟩

/-- **Each node of a walk.**  If a step establishes `Q` of its node, and later steps keep it, `Q` holds
    of every node of the result in the state at the end. -/
theorem walk_each {P : ℕ → σ → Prop} {Q : ℕ → α → σ → Prop} {as as' : List α} {s s' : σ} {i : ℕ}
    (hstep : ∀ k a t a' t', as[k]? = some a → P k t → f (i + k) a t = .ok (a', t') →
      P (k + 1) t' ∧ Q k a' t' ∧ ∀ j b, j < k → Q j b t → Q j b t')
    (h₀ : P 0 s) (hw : walk f i as s = .ok (as', s')) :
    P as.length s' ∧ ∀ k a', as'[k]? = some a' → Q k a' s' := by
  induction as generalizing i s as' P Q with
  | nil =>
    simp only [walk, Except.ok.injEq, Prod.mk.injEq] at hw
    obtain ⟨rfl, rfl⟩ := hw
    exact ⟨h₀, by simp⟩
  | cons b as ih =>
    obtain ⟨b', t, l, hf, hw', rfl⟩ := walk_cons.1 hw
    obtain ⟨hP, hQ, -⟩ := hstep 0 b s b' t rfl h₀ hf
    -- the first node keeps `Q` through the rest of the walk, which has the others
    obtain ⟨⟨h1, h2⟩, h3⟩ := ih (P := fun k u => P (k + 1) u ∧ Q 0 b' u) (Q := fun k => Q (k + 1))
      (fun k a u a' u' ha hu hf' => by
        obtain ⟨h1, h2, h3⟩ := hstep (k + 1) a u a' u' (by simpa using ha) hu.1
          (by rwa [show i + (k + 1) = i + 1 + k by omega])
        exact ⟨⟨h1, h3 0 b' (by omega) hu.2⟩, h2, fun j c hj => h3 (j + 1) c (by omega)⟩) ⟨hP, hQ⟩ hw'
    refine ⟨h1, ?_⟩
    intro k a' ha'
    cases k with
    | zero =>
      obtain rfl : b' = a' := by simpa using ha'
      exact h2
    | succ k => exact h3 k a' (by simpa using ha')

theorem walk_length {as as' : List α} {s s' : σ} {i : ℕ} (hw : walk f i as s = .ok (as', s')) :
    as'.length = as.length :=
  (walk_spec (P := fun _ _ => True) (fun _ _ _ _ _ _ _ _ => trivial) trivial hw).2.1

/-- What becomes of a node. -/
theorem walk_get {as as' : List α} {s s' : σ} {i k : ℕ} {a : α}
    (hw : walk f i as s = .ok (as', s')) (ha : as[k]? = some a) :
    ∃ a' t t', as'[k]? = some a' ∧ f (i + k) a t = .ok (a', t') := by
  obtain ⟨-, -, h⟩ := walk_spec (P := fun _ _ => True) (fun _ _ _ _ _ _ _ _ => trivial) trivial hw
  obtain ⟨a', t, t', ha', -, hf⟩ := h k a ha
  exact ⟨a', t, t', ha', hf⟩

/-- Where a node comes from. -/
theorem walk_get_before {as as' : List α} {s s' : σ} {i k : ℕ} {a' : α}
    (hw : walk f i as s = .ok (as', s')) (ha' : as'[k]? = some a') :
    ∃ a t t', as[k]? = some a ∧ f (i + k) a t = .ok (a', t') := by
  obtain ⟨hlt, -⟩ := List.getElem?_eq_some_iff.1 ha'
  have ha := List.getElem?_eq_getElem (walk_length hw ▸ hlt : k < as.length)
  obtain ⟨b, t, t', hb, hf⟩ := walk_get hw ha
  obtain rfl : b = a' := Option.some.inj (hb.symm.trans ha')
  exact ⟨_, t, t', ha, hf⟩

/-- Two lists of one length, with `R` of the elements at each place. -/
structure Pointwise (R : ℕ → α → β → Prop) (as : List α) (bs : List β) : Prop where
  length : bs.length = as.length
  each : ∀ (k : ℕ) (a : α) (b : β), as[k]? = some a → bs[k]? = some b → R k a b

section
variable {R R' : ℕ → β → α → Prop} {as as' : List α} {bs : List β} {a : α} {b : β} {k : ℕ}

theorem Pointwise.get (h : Pointwise R bs as) (hb : bs[k]? = some b) :
    ∃ a, as[k]? = some a ∧ R k b a := by
  obtain ⟨hlt, -⟩ := List.getElem?_eq_some_iff.1 hb
  have hget := List.getElem?_eq_getElem (h.length.symm ▸ hlt : k < as.length)
  exact ⟨_, hget, h.each k b _ hb hget⟩

theorem Pointwise.get_before (h : Pointwise R bs as) (ha : as[k]? = some a) :
    ∃ b, bs[k]? = some b ∧ R k b a := by
  obtain ⟨hlt, -⟩ := List.getElem?_eq_some_iff.1 ha
  have hget := List.getElem?_eq_getElem (h.length ▸ hlt : k < bs.length)
  exact ⟨_, hget, h.each k _ a hget ha⟩

theorem pointwise_self {R : ℕ → α → α → Prop} (h : ∀ k a, as[k]? = some a → R k a a) :
    Pointwise R as as := by
  refine ⟨rfl, ?_⟩
  intro k a a' ha ha'
  obtain rfl := Option.some.inj (ha.symm.trans ha')
  exact h k a ha

theorem Pointwise.take (h : Pointwise R bs as) (n : ℕ) : Pointwise R (bs.take n) (as.take n) := by
  refine ⟨by simp [h.length], ?_⟩
  intro k b a hb ha
  rw [List.getElem?_take] at hb ha
  split_ifs at hb ha
  exact h.each k b a hb ha

/-- **A walk over a changing list**, related to one that does not change. -/
theorem Pointwise.walk {s s' : σ} (h : Pointwise R bs as)
    (hw : Loops.walk f 0 as s = .ok (as', s'))
    (hstep : ∀ k b a t a' t', bs[k]? = some b → R k b a → f k a t = .ok (a', t') → R' k b a') :
    Pointwise R' bs as' := by
  refine ⟨(walk_length hw).trans h.length, ?_⟩
  intro k b a' hb ha'
  obtain ⟨a, t, t', ha, hf⟩ := walk_get_before hw ha'
  rw [Nat.zero_add] at hf
  exact hstep k b a t a' t' hb (h.each k b a hb ha) hf

end

/-- A walk whose steps all succeed succeeds. -/
theorem walk_total {P : ℕ → σ → Prop} {as : List α} {s : σ} {i : ℕ}
    (hstep : ∀ k a t, as[k]? = some a → P k t → ∃ a' t', f (i + k) a t = .ok (a', t') ∧ P (k + 1) t')
    (h₀ : P 0 s) : ∃ as' s', walk f i as s = .ok (as', s') ∧ P as.length s' := by
  induction as generalizing i s P with
  | nil => exact ⟨[], s, rfl, h₀⟩
  | cons b as ih =>
    obtain ⟨b', t, hf, hP⟩ := hstep 0 b s rfl h₀
    obtain ⟨as', s', hw, hs'⟩ := ih (P := fun k => P (k + 1)) (i := i + 1) (fun k a u ha hu => by
      rw [show i + 1 + k = i + (k + 1) by omega]
      exact hstep (k + 1) a u (by simpa using ha) hu) hP
    exact ⟨b' :: as', s', walk_cons.2 ⟨b', t, as', hf, hw, rfl⟩, hs'⟩

/-- A walk that faults does so at some node. -/
theorem walk_error {P : ℕ → σ → Prop} {as : List α} {s : σ} {i : ℕ} {e : ε}
    (hstep : ∀ k a t a' t', as[k]? = some a → P k t → f (i + k) a t = .ok (a', t') → P (k + 1) t')
    (h₀ : P 0 s) (hw : walk f i as s = .error e) :
    ∃ k a t, as[k]? = some a ∧ P k t ∧ f (i + k) a t = .error e := by
  induction as generalizing i s P with
  | nil => simp [walk] at hw
  | cons b as ih =>
    cases hb : f i b s with
    | error e' =>
      obtain rfl : e' = e := by simpa [walk, hb, bind, Except.bind] using hw
      exact ⟨0, b, s, rfl, h₀, hb⟩
    | ok p =>
      obtain ⟨b', t⟩ := p
      have hw' : walk f (i + 1) as t = .error e := by
        cases hr : walk f (i + 1) as t with
        | error e' => simpa [walk, hb, hr, bind, Except.bind] using hw
        | ok q => simp [walk, hb, hr, bind, Except.bind] at hw
      obtain ⟨k, a, u, ha, hu, hf⟩ := ih (P := fun k => P (k + 1)) (fun k a u a' u' ha hu hf =>
        hstep (k + 1) a u a' u' (by simpa using ha) hu
          (by rwa [show i + (k + 1) = i + 1 + k by omega])) (hstep 0 b s b' t rfl h₀ hb) hw'
      exact ⟨k + 1, a, u, by simpa using ha, hu, by rwa [show i + (k + 1) = i + 1 + k by omega]⟩

/-- If every step adds an element for its node to a list, and perhaps others after it, a walk adds one
    for each node, in order. -/
theorem walk_adds {g : σ → List β} {key : α → β} {as as' : List α} {s s' : σ} {i : ℕ}
    (hstep : ∀ k a s a' s', f k a s = .ok (a', s') → ∃ more, g s' = g s ++ key a :: more)
    (hw : walk f i as s = .ok (as', s')) : ∃ new, g s' = g s ++ new ∧ (as.map key).Sublist new := by
  induction as generalizing i s as' with
  | nil =>
    obtain ⟨-, rfl⟩ := Prod.mk.inj (Except.ok.inj hw)
    exact ⟨[], (List.append_nil _).symm, List.Sublist.refl _⟩
  | cons a as ih =>
    obtain ⟨a', t, l, hf, hw', rfl⟩ := walk_cons.1 hw
    obtain ⟨more, hmore⟩ := hstep i a s a' t hf
    obtain ⟨new, hnew, hsub⟩ := ih hw'
    refine ⟨key a :: (more ++ new), by rw [hnew, hmore]; simp, ?_⟩
    exact .cons_cons (key a) (hsub.trans (List.sublist_append_right more new))

variable (f) in
/-- The steps of a walk: the nodes, each with its index and the state its step starts from. -/
def steps : ℕ → List α → σ → List (ℕ × α × σ)
  | _, [], _ => []
  | i, a :: as, s => (i, a, s) :: match f i a s with
    | .ok (_, s') => steps (i + 1) as s'
    | .error _ => []

theorem steps_cons {i : ℕ} {a a' : α} {as : List α} {s s' : σ} (h : f i a s = .ok (a', s')) :
    steps f i (a :: as) s = (i, a, s) :: steps f (i + 1) as s' := by
  simp only [steps, h]

/-- The step that is made for a node. -/
theorem walk_step {as as' : List α} {s s' : σ} {i k : ℕ} {a : α}
    (hw : walk f i as s = .ok (as', s')) (ha : as[k]? = some a) :
    ∃ a' t t', as'[k]? = some a' ∧ (steps f i as s)[k]? = some (i + k, a, t) ∧
      f (i + k) a t = .ok (a', t') := by
  induction as generalizing i s as' k with
  | nil => simp at ha
  | cons b as ih =>
    obtain ⟨b', t, l, hf, hw', rfl⟩ := walk_cons.1 hw
    rw [steps_cons hf]
    cases k with
    | zero =>
      obtain rfl : b = a := by simpa using ha
      exact ⟨b', s, t, rfl, rfl, hf⟩
    | succ k =>
      obtain ⟨a', u, u', ha', hu, hstep⟩ := ih hw' (by simpa using ha)
      rw [show i + 1 + k = i + (k + 1) by omega] at hu hstep
      exact ⟨a', u, u', by simpa using ha', by simpa using hu, hstep⟩

/-- Steps are made for the nodes of the list. -/
theorem mem_steps {as : List α} {s : σ} {i : ℕ} {step : ℕ × α × σ} (h : step ∈ steps f i as s) :
    ∃ k, step.1 = i + k ∧ as[k]? = some step.2.1 := by
  induction as generalizing i s with
  | nil => simp [steps] at h
  | cons a as ih =>
    rcases List.mem_cons.1 h with rfl | h
    · exact ⟨0, rfl, rfl⟩
    · cases hf : f i a s with
      | error e => simp [hf] at h
      | ok r =>
        rw [hf] at h
        obtain ⟨k, hk, ha⟩ := ih h
        exact ⟨k + 1, by omega, by simpa using ha⟩

/-- **Invariants of a walk and its steps**: `P` may look back at all steps taken. -/
theorem walk_steps {P : List (ℕ × α × σ) → σ → Prop} {as as' : List α} {s s' : σ} {i : ℕ}
    (hstep : ∀ done k a t a' t', P done t → f k a t = .ok (a', t') → P (done ++ [(k, a, t)]) t')
    (h₀ : P [] s) (hw : walk f i as s = .ok (as', s')) : P (steps f i as s) s' := by
  suffices hfrom : ∀ done, P done s → P (done ++ steps f i as s) s' from hfrom [] h₀
  clear h₀
  induction as generalizing i s as' with
  | nil =>
    intro done hd
    simp only [walk, Except.ok.injEq, Prod.mk.injEq] at hw
    obtain ⟨-, rfl⟩ := hw
    rwa [steps, List.append_nil]
  | cons a as ih =>
    intro done hd
    obtain ⟨a', t, l, hf, hw', rfl⟩ := walk_cons.1 hw
    rw [steps_cons hf, ← List.concat_append, List.concat_eq_append]
    exact ih hw' _ (hstep done i a s a' t hd hf)

theorem walk_append {as bs l : List α} {s s'' : σ} {i : ℕ} :
    walk f i (as ++ bs) s = .ok (l, s'') ↔ ∃ as' s' bs', walk f i as s = .ok (as', s') ∧
      walk f (i + as.length) bs s' = .ok (bs', s'') ∧ l = as' ++ bs' := by
  induction as generalizing i s l with
  | nil => simp [walk]
  | cons a as ih =>
    have hlen : i + (a :: as).length = i + 1 + as.length := by rw [List.length_cons]; omega
    rw [List.cons_append, walk_cons, hlen]
    constructor
    · rintro ⟨a', t, l', ha, hw, rfl⟩
      obtain ⟨as', s', bs', has, hbs, rfl⟩ := ih.1 hw
      exact ⟨a' :: as', s', bs', walk_cons.2 ⟨a', t, as', ha, has, rfl⟩, hbs, rfl⟩
    · rintro ⟨l', s', bs', hw, hbs, rfl⟩
      obtain ⟨a', t, as', ha, has, rfl⟩ := walk_cons.1 hw
      exact ⟨a', t, as' ++ bs', ha, ih.2 ⟨as', s', bs', has, hbs, rfl⟩, rfl⟩

/-- **What a walk has done.**  If the step of node `k` adds `g k` to what has been done, a walk adds
    it for all its nodes. -/
theorem walk_done {P : List β → σ → Prop} (g : ℕ → List β) {as as' : List α} {s s' : σ}
    {done : List β}
    (hstep : ∀ done k a t a' t', as[k]? = some a → P done t → f k a t = .ok (a', t') →
      P (done ++ g k) t')
    (h₀ : P done s) (hw : walk f 0 as s = .ok (as', s')) :
    P (done ++ (List.range as.length).flatMap g) s' := by
  refine (walk_spec (P := fun k => P (done ++ (List.range k).flatMap g)) ?_ (by simpa using h₀) hw).1
  intro k a t a' t' ha hd hf
  rw [Nat.zero_add] at hf
  rw [List.range_succ, List.flatMap_append, List.flatMap_singleton, ← List.append_assoc]
  exact hstep _ k a t a' t' ha hd hf

variable (f) in
/-- A walk gets to node `k`, in state `t`. -/
def Reaches (i : ℕ) (as : List α) (s : σ) (k : ℕ) (t : σ) : Prop :=
  ∃ as', walk f i (as.take k) s = .ok (as', t)

theorem reaches_zero {as : List α} {s t : σ} {i : ℕ} : Reaches f i as s 0 t ↔ s = t := by
  simp [Reaches, walk]

theorem reaches_succ {as : List α} {a : α} {s t' : σ} {i k : ℕ} (ha : as[k]? = some a) :
    Reaches f i as s (k + 1) t' ↔ ∃ t a', Reaches f i as s k t ∧ f (i + k) a t = .ok (a', t') := by
  obtain ⟨hk, -⟩ := List.getElem?_eq_some_iff.1 ha
  have htake : as.take (k + 1) = as.take k ++ [a] := by rw [List.take_add_one, ha]; rfl
  have hlen : i + (as.take k).length = i + k := by rw [List.length_take_of_le (Nat.le_of_lt hk)]
  simp only [Reaches, htake, walk_append, walk_singleton, hlen, bind_eq_ok]
  constructor
  · rintro ⟨-, l, t, bs, hw, ⟨⟨a', u⟩, hf, hbs⟩, rfl⟩
    obtain ⟨-, rfl⟩ := Prod.mk.inj (Except.ok.inj hbs)
    exact ⟨t, a', ⟨l, hw⟩, hf⟩
  · rintro ⟨t, a', ⟨l, hw⟩, hf⟩
    exact ⟨_, l, t, [a'], hw, ⟨_, hf, rfl⟩, rfl⟩

/-- A walk that completes has got to all its nodes, and to its end. -/
theorem walk_reaches {as as' : List α} {s s' : σ} {i k : ℕ} (hw : walk f i as s = .ok (as', s')) :
    ∃ t, Reaches f i as s k t := by
  rw [← List.take_append_drop k as] at hw
  obtain ⟨l, t, -, h, -, -⟩ := walk_append.1 hw
  exact ⟨t, l, h⟩

/-- When the success of a step does not depend on the threaded state, a walk succeeds iff
    every step does. -/
theorem walk_ok_iff {G : ℕ → α → Prop} {as : List α} {s : σ} {i : ℕ}
    (hG : ∀ k a t, as[k]? = some a → ((∃ r, f (i + k) a t = .ok r) ↔ G (i + k) a)) :
    (∃ r, walk f i as s = .ok r) ↔ ∀ k a, as[k]? = some a → G (i + k) a := by
  constructor
  · rintro ⟨⟨as', s'⟩, hw⟩ k a ha
    obtain ⟨a', t, t', -, hf⟩ := walk_get hw ha
    exact (hG k a t ha).1 ⟨_, hf⟩
  · intro h
    obtain ⟨as', s', hw, -⟩ := walk_total (f := f) (P := fun _ _ => True) (s := s) (i := i)
      (fun k a t ha _ => by
        obtain ⟨⟨a', t'⟩, hf⟩ := (hG k a t ha).2 (h k a ha)
        exact ⟨a', t', hf, trivial⟩) trivial
    exact ⟨_, hw⟩

end

/-! ## Requests

A program that walks over its nodes in each round makes the requests `(r, j, k)`: those of node `j` in
round `r` are numbered by `k`. -/

section
variable (h : ℕ → ℕ → ℕ) (w : ℕ)

/-- The requests to a node, if there are `m`. -/
def nodeRequests (r j m : ℕ) : List (ℕ × ℕ × ℕ) := (List.range m).map fun k => (r, j, k)

/-- The requests of a round over `w` nodes, of which there are `h r j` to node `j`. -/
def roundGrid (r : ℕ) : List (ℕ × ℕ × ℕ) := (List.range w).flatMap fun j => nodeRequests r j (h r j)

/-- The requests of `n` rounds. -/
def requestGrid (n : ℕ) : List (ℕ × ℕ × ℕ) := (List.range n).flatMap (roundGrid h w)

variable {h w}

theorem mem_roundGrid {r : ℕ} {q : ℕ × ℕ × ℕ} :
    q ∈ roundGrid h w r ↔ q.1 = r ∧ q.2.1 < w ∧ q.2.2 < h q.1 q.2.1 := by
  obtain ⟨r', j, k⟩ := q
  simp only [roundGrid, nodeRequests, List.mem_flatMap, List.mem_map, List.mem_range, Prod.mk.injEq]
  constructor
  · rintro ⟨j', hj, k', hk, rfl, rfl, rfl⟩
    exact ⟨rfl, hj, hk⟩
  · rintro ⟨rfl, hj, hk⟩
    exact ⟨j, hj, k, hk, rfl, rfl, rfl⟩

section
variable {f : ℕ → α → σ → Except ε (α × σ)} {P : List (ℕ × ℕ × ℕ) → σ → Prop} {as as' : List α}
  {s s' : σ} {done : List (ℕ × ℕ × ℕ)} {r j : ℕ}

/-- **The requests to a node**, if each step of a walk makes one. -/
theorem walk_nodeRequests
    (hstep : ∀ done k a t a' t', as[k]? = some a → P done t → f k a t = .ok (a', t') →
      P (done ++ [(r, j, k)]) t')
    (h₀ : P done s) (hw : walk f 0 as s = .ok (as', s')) :
    P (done ++ nodeRequests r j as.length) s' := by
  rw [nodeRequests, List.map_eq_flatMap]
  exact walk_done (fun k => [(r, j, k)]) hstep h₀ hw

/-- **The requests of a round**, if each step of a walk makes those to its node. -/
theorem walk_roundGrid (hlen : as.length = w)
    (hstep : ∀ done j a t a' t', as[j]? = some a → P done t → f j a t = .ok (a', t') →
      P (done ++ nodeRequests r j (h r j)) t')
    (h₀ : P done s) (hw : walk f 0 as s = .ok (as', s')) : P (done ++ roundGrid h w r) s' := by
  rw [roundGrid, ← hlen]
  exact walk_done (fun j => nodeRequests r j (h r j)) hstep h₀ hw

end

theorem requestGrid_succ {n : ℕ} : requestGrid h w (n + 1) = requestGrid h w n ++ roundGrid h w n := by
  rw [requestGrid, List.range_succ, List.flatMap_append, List.flatMap_singleton]
  rfl

theorem mem_requestGrid {n : ℕ} {q : ℕ × ℕ × ℕ} :
    q ∈ requestGrid h w n ↔ q.1 < n ∧ q.2.1 < w ∧ q.2.2 < h q.1 q.2.1 := by
  simp only [requestGrid, List.mem_flatMap, List.mem_range, mem_roundGrid]
  constructor
  · rintro ⟨r, hr, rfl, hj, hk⟩
    exact ⟨hr, hj, hk⟩
  · rintro ⟨hr, hj, hk⟩
    exact ⟨q.1, hr, rfl, hj, hk⟩

end

/-! ## Polling -/

section
variable (round : ℕ → σ → Except ε σ) (again : ℕ → σ → Bool)

/-- `n` rounds, the first of them with number `r`. -/
def rounds : ℕ → ℕ → σ → Except ε σ
  | 0, _, s => .ok s
  | n + 1, r, s => round r s >>= rounds n (r + 1)

/-- The polling loop from round `r` on; `again` is asked after each round.  `none` is a loop that
    has not ended within its fuel; else the number of the next round and the last state. -/
def poll : ℕ → ℕ → σ → Except ε (Option (ℕ × σ))
  | 0, _, _ => .ok none
  | fuel + 1, r, s => do
    let s' ← round r s
    if again r s' then poll fuel (r + 1) s' else .ok (some (r + 1, s'))

/-- The loop started in `s` ends in `s'` after exactly `n` rounds. -/
def Ends (n : ℕ) (s s' : σ) : Prop := ∃ fuel, poll round again fuel 0 s = .ok (some (n, s'))

variable {round again}

theorem poll_succ {fuel r : ℕ} {s s' : σ} (h : round r s = .ok s') :
    poll round again (fuel + 1) r s =
      if again r s' then poll round again fuel (r + 1) s' else .ok (some (r + 1, s')) := by
  simp [poll, h, bind, Except.bind]

theorem rounds_succ_eq_ok {n r : ℕ} {s s'' : σ} :
    rounds round (n + 1) r s = .ok s'' ↔
      ∃ s', round r s = .ok s' ∧ rounds round n (r + 1) s' = .ok s'' :=
  bind_eq_ok

/-- The last of `n + 1` rounds. -/
theorem rounds_last {n r : ℕ} {s s'' : σ} :
    rounds round (n + 1) r s = .ok s'' ↔
      ∃ s', rounds round n r s = .ok s' ∧ round (r + n) s' = .ok s'' := by
  induction n generalizing r s with
  | zero => simp [rounds, bind_eq_ok]
  | succ n ih =>
    rw [rounds_succ_eq_ok]
    constructor
    · rintro ⟨t, h, hr⟩
      obtain ⟨s', h', hl⟩ := ih.1 hr
      exact ⟨s', rounds_succ_eq_ok.2 ⟨t, h, h'⟩, by rw [← hl]; congr 1; omega⟩
    · rintro ⟨s', h, hl⟩
      obtain ⟨t, ht, h'⟩ := rounds_succ_eq_ok.1 h
      exact ⟨t, ht, ih.2 ⟨s', h', by rw [← hl]; congr 1; omega⟩⟩

/-- The first rounds of a run that completes complete. -/
theorem rounds_le {m n r : ℕ} {s s'' : σ} (h : rounds round n r s = .ok s'') (hm : m ≤ n) :
    ∃ s', rounds round m r s = .ok s' := by
  induction n generalizing s'' with
  | zero => exact ⟨s'', by rwa [Nat.le_zero.1 hm]⟩
  | succ n ih =>
    rcases Nat.lt_or_eq_of_le hm with hm | rfl
    · obtain ⟨s', h', -⟩ := rounds_last.1 h
      exact ih h' (by omega)
    · exact ⟨s'', h⟩

/-- **Invariants of polling.**  What one round keeps, any number of rounds keeps. -/
theorem rounds_inv {P : ℕ → σ → Prop} {n r : ℕ} {s s' : σ}
    (hstep : ∀ k t t', k < n → P k t → round (r + k) t = .ok t' → P (k + 1) t')
    (h₀ : P 0 s) (h : rounds round n r s = .ok s') : P n s' := by
  induction n generalizing s' with
  | zero =>
    obtain rfl : s = s' := by simpa [rounds] using h
    exact h₀
  | succ n ih =>
    obtain ⟨t, ht, hl⟩ := rounds_last.1 h
    exact hstep n t s' (by omega) (ih (fun k t t' hk => hstep k t t' (by omega)) ht) hl

/-- **What the rounds have done.**  If round `k` adds `g k` to what has been done, `n` rounds add it
    for all of them. -/
theorem rounds_done {P : List β → σ → Prop} (g : ℕ → List β) {n : ℕ} {s s' : σ} {done : List β}
    (hstep : ∀ done k t t', k < n → rounds round k 0 s = .ok t → P done t → round k t = .ok t' →
      P (done ++ g k) t')
    (h₀ : P done s) (h : rounds round n 0 s = .ok s') :
    P (done ++ (List.range n).flatMap g) s' := by
  induction n generalizing s' with
  | zero =>
    obtain rfl : s = s' := by simpa [rounds] using h
    simpa using h₀
  | succ n ih =>
    obtain ⟨t, ht, hl⟩ := rounds_last.1 h
    rw [Nat.zero_add] at hl
    have hn := ih (fun done k t t' hk => hstep done k t t' (by omega)) ht
    rw [List.range_succ, List.flatMap_append, List.flatMap_singleton, ← List.append_assoc]
    exact hstep _ n t s' (by omega) ht hn hl

variable (round) in
/-- The states that `n` rounds start from. -/
def roundStates : ℕ → ℕ → σ → List σ
  | 0, _, _ => []
  | n + 1, r, s => s :: match round r s with
    | .ok s' => roundStates n (r + 1) s'
    | .error _ => []

/-- One round more has started from the last state. -/
theorem roundStates_succ {n r : ℕ} {s s' : σ} (h : rounds round n r s = .ok s') :
    roundStates round (n + 1) r s = roundStates round n r s ++ [s'] := by
  induction n generalizing r s with
  | zero =>
    obtain rfl : s = s' := by simpa [rounds] using h
    simp only [roundStates, List.nil_append]
    cases round r s with
    | error e => rfl
    | ok t => rfl
  | succ n ih =>
    obtain ⟨t, ht, hr⟩ := rounds_succ_eq_ok.1 h
    have hstates : ∀ m, roundStates round (m + 1) r s = s :: roundStates round m (r + 1) t := by
      intro m
      simp only [roundStates, ht]
    rw [hstates, hstates, ih hr, List.cons_append]

/-- Invariants of polling that look back at all rounds. -/
theorem rounds_states {P : List σ → σ → Prop} {n r : ℕ} {s s' : σ}
    (hstep : ∀ done k t t', P done t → round k t = .ok t' → P (done ++ [t]) t')
    (h₀ : P [] s) (h : rounds round n r s = .ok s') : P (roundStates round n r s) s' := by
  suffices hfrom : ∀ done, P done s → P (done ++ roundStates round n r s) s' from hfrom [] h₀
  clear h₀
  induction n generalizing r s with
  | zero =>
    intro done hd
    obtain rfl : s = s' := by simpa [rounds] using h
    rwa [roundStates, List.append_nil]
  | succ n ih =>
    intro done hd
    obtain ⟨t, ht, hr⟩ := rounds_succ_eq_ok.1 h
    have hstates : roundStates round (n + 1) r s = s :: roundStates round n (r + 1) t := by
      simp only [roundStates, ht]
    rw [hstates, ← List.concat_append, List.concat_eq_append]
    exact ih hr _ (hstep done r s t hd ht)

/-- Rounds that all succeed. -/
theorem rounds_total {P : ℕ → σ → Prop} {n r : ℕ} {s : σ}
    (hstep : ∀ k t, k < n → P k t → ∃ t', round (r + k) t = .ok t' ∧ P (k + 1) t')
    (h₀ : P 0 s) : ∃ s', rounds round n r s = .ok s' ∧ P n s' := by
  induction n with
  | zero => exact ⟨s, rfl, h₀⟩
  | succ n ih =>
    obtain ⟨t, ht, hP⟩ := ih fun k t hk => hstep k t (by omega)
    obtain ⟨t', ht', hP'⟩ := hstep n t (by omega) hP
    exact ⟨t', rounds_last.2 ⟨t, ht, ht'⟩, hP'⟩

/-- **A loop that counts its rounds.**  If another round is asked for only below `n`, the loop ends
    within `n` rounds, unless one of them faults. -/
theorem poll_bounded (round : ℕ → σ → Except ε σ) (again : ℕ → σ → Bool) {P : ℕ → σ → Prop}
    {E : ε → Prop} {n : ℕ}
    (hstep : ∀ k s, k < n → P k s →
      (∃ e, round k s = .error e ∧ E e) ∨ ∃ s', round k s = .ok s' ∧ P (k + 1) s')
    (hagain : ∀ k s, P (k + 1) s → again k s = true → k + 1 < n)
    (fuel : ℕ) {k : ℕ} {s : σ} (hk : k < n) (hs : P k s) :
    (∃ e, poll round again fuel k s = .error e ∧ E e) ∨
      (poll round again fuel k s = .ok none ∧ k + fuel < n) ∨
      ∃ r s', poll round again fuel k s = .ok (some (r + 1, s')) ∧ r < n ∧ P (r + 1) s' ∧
        again r s' = false := by
  induction fuel generalizing k s with
  | zero => exact .inr (.inl ⟨rfl, by omega⟩)
  | succ fuel ih =>
    rcases hstep k s hk hs with ⟨e, he, hE⟩ | ⟨s', hs', hP⟩
    · exact .inl ⟨e, by simp [poll, he, bind, Except.bind], hE⟩
    · rw [poll_succ hs']
      cases ha : again k s' with
      | true =>
        simp only [if_true]
        rcases ih (hagain k s' hP ha) hP with h | ⟨h, hlt⟩ | h
        · exact .inl h
        · exact .inr (.inl ⟨h, by omega⟩)
        · exact .inr (.inr h)
      | false => exact .inr (.inr ⟨k, s', by simp, hk, hP, ha⟩)

/-- The polling loop ends after `n + 1` rounds iff these complete, the last one asks for no other,
    and all earlier ones do. -/
theorem poll_eq_some {fuel r m : ℕ} {s s' : σ} :
    poll round again fuel r s = .ok (some (m, s')) ↔
      ∃ n, m = r + n + 1 ∧ n < fuel ∧ rounds round (n + 1) r s = .ok s' ∧ again (r + n) s' = false ∧
        ∀ k t, k < n → rounds round (k + 1) r s = .ok t → again (r + k) t = true := by
  induction fuel generalizing r s with
  | zero => simp [poll]
  | succ fuel ih =>
    simp only [poll, bind_eq_ok]
    constructor
    · rintro ⟨t, ht, h⟩
      split_ifs at h with ha
      · obtain ⟨n, rfl, hn, hr, hl, hk⟩ := ih.1 h
        refine ⟨n + 1, by omega, by omega, rounds_succ_eq_ok.2 ⟨t, ht, hr⟩,
          by rwa [show r + (n + 1) = r + 1 + n by omega], fun k u hkn hu => ?_⟩
        obtain ⟨t', ht', hu⟩ := rounds_succ_eq_ok.1 hu
        obtain rfl : t = t' := by simpa [ht] using ht'
        cases k with
        | zero =>
          obtain rfl : t = u := by simpa [rounds] using hu
          exact ha
        | succ k => rw [show r + (k + 1) = r + 1 + k by omega]; exact hk k u (by omega) hu
      · simp only [Except.ok.injEq, Option.some.injEq, Prod.mk.injEq] at h
        obtain ⟨rfl, rfl⟩ := h
        exact ⟨0, rfl, by omega, rounds_succ_eq_ok.2 ⟨t, ht, rfl⟩, by simpa using ha, by simp⟩
    · rintro ⟨n, rfl, hn, hr, hl, hk⟩
      obtain ⟨t, ht, hr⟩ := rounds_succ_eq_ok.1 hr
      refine ⟨t, ht, ?_⟩
      cases n with
      | zero =>
        obtain rfl : t = s' := by simpa [rounds] using hr
        have ha : again r t = false := hl
        simp [ha]
      | succ n =>
        have ha : again r t = true := hk 0 t (by omega) (rounds_succ_eq_ok.2 ⟨t, ht, rfl⟩)
        rw [if_pos ha]
        refine ih.2 ⟨n, by omega, by omega, hr, by rwa [show r + 1 + n = r + (n + 1) by omega],
          fun k u hkn hu => ?_⟩
        rw [show r + 1 + k = r + (k + 1) by omega]
        exact hk (k + 1) u (by omega) (rounds_succ_eq_ok.2 ⟨t, ht, hu⟩)

/-- **When polling ends.** -/
theorem ends_iff {n : ℕ} {s s' : σ} :
    Ends round again n s s' ↔ ∃ k, n = k + 1 ∧ rounds round (k + 1) 0 s = .ok s' ∧
      again k s' = false ∧ ∀ j t, j < k → rounds round (j + 1) 0 s = .ok t → again j t = true := by
  simp only [Ends, poll_eq_some, Nat.zero_add]
  constructor
  · rintro ⟨fuel, k, rfl, -, h⟩
    exact ⟨k, rfl, h⟩
  · rintro ⟨k, rfl, h⟩
    exact ⟨k + 1, k, rfl, by omega, h⟩

/-- The polling loop faults iff it does in a round that is asked for by those before. -/
theorem poll_eq_error {fuel r : ℕ} {s : σ} {e : ε} :
    poll round again fuel r s = .error e ↔
      ∃ n t, n < fuel ∧ rounds round n r s = .ok t ∧ round (r + n) t = .error e ∧
        ∀ k u, k < n → rounds round (k + 1) r s = .ok u → again (r + k) u = true := by
  induction fuel generalizing r s with
  | zero => simp [poll]
  | succ fuel ih =>
    cases hround : round r s with
    | error e' =>
      have hpoll : poll round again (fuel + 1) r s = .error e' := by
        simp [poll, hround, bind, Except.bind]
      rw [hpoll]
      constructor
      · intro h
        obtain rfl := Except.error.inj h
        exact ⟨0, s, Nat.succ_pos _, rfl, hround, fun k _ hk => absurd hk (Nat.not_lt_zero k)⟩
      · rintro ⟨n, t, -, ht, he, -⟩
        cases n with
        | zero =>
          obtain rfl : s = t := by simpa [rounds] using ht
          rw [Nat.add_zero, hround] at he
          rw [Except.error.inj he]
        | succ n =>
          obtain ⟨u, hu, -⟩ := rounds_succ_eq_ok.1 ht
          rw [hround] at hu
          cases hu
    | ok s' =>
      rw [poll_succ hround]
      constructor
      · intro h
        split_ifs at h with ha
        obtain ⟨n, t, hn, ht, he, hk⟩ := ih.1 h
        refine ⟨n + 1, t, by omega, rounds_succ_eq_ok.2 ⟨s', hround, ht⟩,
          by rwa [show r + (n + 1) = r + 1 + n by omega], fun k u hkn hu => ?_⟩
        obtain ⟨s'', hs'', hu⟩ := rounds_succ_eq_ok.1 hu
        obtain rfl : s' = s'' := by simpa [hround] using hs''
        cases k with
        | zero =>
          obtain rfl : s' = u := by simpa [rounds] using hu
          exact ha
        | succ k => rw [show r + (k + 1) = r + 1 + k by omega]; exact hk k u (by omega) hu
      · rintro ⟨n, t, hn, ht, he, hk⟩
        cases n with
        | zero =>
          obtain rfl : s = t := by simpa [rounds] using ht
          rw [Nat.add_zero, hround] at he
          cases he
        | succ n =>
          obtain ⟨s'', hs'', ht⟩ := rounds_succ_eq_ok.1 ht
          obtain rfl : s' = s'' := by simpa [hround] using hs''
          have ha : again r s' = true := hk 0 s' (by omega) (rounds_succ_eq_ok.2 ⟨s', hround, rfl⟩)
          rw [if_pos ha]
          refine ih.2 ⟨n, t, by omega, ht, by rwa [show r + 1 + n = r + (n + 1) by omega],
            fun k u hkn hu => ?_⟩
          rw [show r + 1 + k = r + (k + 1) by omega]
          exact hk (k + 1) u (by omega) (rounds_succ_eq_ok.2 ⟨s', hround, hu⟩)

variable (round again) in
/-- The loop started in `s` gets to round `n`, in state `t`. -/
def Polls (n : ℕ) (s t : σ) : Prop :=
  rounds round n 0 s = .ok t ∧ ∀ k u, k < n → rounds round (k + 1) 0 s = .ok u → again k u = true

theorem polls_zero {s t : σ} : Polls round again 0 s t ↔ s = t := by
  simp [Polls, rounds]

theorem polls_succ {n : ℕ} {s t : σ} : Polls round again (n + 1) s t ↔
    ∃ u, Polls round again n s u ∧ round n u = .ok t ∧ again n t = true := by
  constructor
  · rintro ⟨h, hagain⟩
    obtain ⟨u, hu, hround⟩ := rounds_last.1 h
    rw [Nat.zero_add] at hround
    exact ⟨u, ⟨hu, fun k v hk => hagain k v (by omega)⟩, hround, hagain n t (Nat.lt_succ_self n) h⟩
  · rintro ⟨u, ⟨hu, hagain⟩, hround, ha⟩
    have h : rounds round (n + 1) 0 s = .ok t := rounds_last.2 ⟨u, hu, by rwa [Nat.zero_add]⟩
    refine ⟨h, ?_⟩
    intro k v hk hv
    rcases Nat.lt_or_eq_of_le (Nat.le_of_lt_succ hk) with hlt | rfl
    · exact hagain k v hlt hv
    · obtain rfl := Except.ok.inj (h.symm.trans hv)
      exact ha

/-- **A loop does not fault** iff no round does that it gets to. -/
theorem poll_ne_error_iff {s : σ} : (∀ fuel e, poll round again fuel 0 s ≠ .error e) ↔
    ∀ n t, Polls round again n s t → ∃ t', round n t = .ok t' := by
  constructor
  · intro h n t ⟨ht, hagain⟩
    cases hround : round n t with
    | ok t' => exact ⟨t', rfl⟩
    | error e =>
      refine absurd (poll_eq_error.2 ⟨n, t, Nat.lt_succ_self n, ht, by rwa [Nat.zero_add], ?_⟩)
        (h (n + 1) e)
      intro k u hk hu
      rw [Nat.zero_add]
      exact hagain k u hk hu
  · intro h fuel e hpoll
    obtain ⟨n, t, -, ht, he, hagain⟩ := poll_eq_error.1 hpoll
    rw [Nat.zero_add] at he
    obtain ⟨t', ht'⟩ := h n t ⟨ht, fun k u hk hu => by
      have ha := hagain k u hk hu
      rwa [Nat.zero_add] at ha⟩
    rw [he] at ht'
    cases ht'

/-- A loop ends in the first round that it gets to and that does not ask for another. -/
theorem ends_succ_iff {n : ℕ} {s s' : σ} : Ends round again (n + 1) s s' ↔
    ∃ t, Polls round again n s t ∧ round n t = .ok s' ∧ again n s' = false := by
  rw [ends_iff]
  constructor
  · rintro ⟨k, hk, h, hlast, hagain⟩
    obtain rfl : n = k := by omega
    obtain ⟨t, ht, hround⟩ := rounds_last.1 h
    rw [Nat.zero_add] at hround
    exact ⟨t, ⟨ht, fun j u hj hu => hagain j u hj hu⟩, hround, hlast⟩
  · rintro ⟨t, ⟨ht, hagain⟩, hround, hlast⟩
    exact ⟨n, rfl, rounds_last.2 ⟨t, ht, by rwa [Nat.zero_add]⟩, hlast, fun j u hj hu => hagain j u hj hu⟩

/-- Fuel does not change how a loop ends. -/
theorem poll_cases {fuel : ℕ} (fuel' : ℕ) {r m : ℕ} {s s' : σ}
    (h : poll round again fuel r s = .ok (some (m, s'))) :
    poll round again fuel' r s = .ok none ∨ poll round again fuel' r s = .ok (some (m, s')) := by
  induction fuel generalizing fuel' r s with
  | zero => simp [poll] at h
  | succ fuel ih =>
    cases fuel' with
    | zero => exact .inl rfl
    | succ fuel' =>
      obtain ⟨t, ht, h⟩ := bind_eq_ok.1 h
      rw [poll_succ ht]
      split_ifs at h ⊢ with ha
      · exact ih fuel' h
      · exact .inr h

/-- A loop that ends does not fault. -/
theorem Ends.poll_ne_error {n fuel : ℕ} {s s' : σ} {e : ε} (h : Ends round again n s s') :
    poll round again fuel 0 s ≠ .error e := by
  obtain ⟨fuel', h⟩ := h
  rcases poll_cases fuel h with h | h <;> simp [h]

end

end Loops
