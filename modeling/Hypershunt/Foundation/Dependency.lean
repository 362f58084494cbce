import Mathlib.Data.Finset.Card
import Mathlib.Data.Finset.Dedup
import Mathlib.Data.List.Chain
import Mathlib.Logic.Relation
import Hypershunt.Foundation.Fallible

/-!
# Dependencies without cycles

A graph is given by the list of what each vertex depends on. Where it has no cycle and its vertices
are listed in `vs`, a recursion along the dependencies is never deeper than `vs.length`
(`Closed.induction`), so that equations which give the value of a vertex from the values of its
dependencies have a solution (`Closed.exists_solution`).

The second half is the search for a cycle, depth first and with three marks: it comes to an end
(`Closed.search_ne_outOfFuel`), and it succeeds exactly if there is no cycle
(`Closed.search_eq_ok_iff`).
-/

namespace Hypershunt

open List Option

namespace Dependency

open Relation TransGen Function

variable {V α : Type*} {deps : V → List V} {vs : List V} {u v w : V}

/-- No vertex depends on itself, over any number of steps. -/
def Acyclic (deps : V → List V) : Prop := ∀ v, ¬TransGen (fun v w ↦ w ∈ deps v) v v

/-- The vertices in the list are all that have or are dependencies. -/
structure Closed (deps : V → List V) (vs : List V) : Prop where
  mem : ∀ {v w}, v ∈ vs → w ∈ deps v → w ∈ vs
  nil : ∀ {v}, v ∉ vs → deps v = []

/-! ## Recursion along dependencies -/

open Classical in
/-- What a vertex depends on over one or more steps. -/
noncomputable def descendants (deps : V → List V) (vs : List V) (v : V) : Finset V :=
  vs.toFinset.filter fun w ↦ TransGen (fun v w ↦ w ∈ deps v) v w

open Classical in
theorem mem_descendants :
    w ∈ descendants deps vs v ↔ w ∈ vs ∧ TransGen (fun v w ↦ w ∈ deps v) v w := by
  rw [descendants, Finset.mem_filter, List.mem_toFinset]

theorem card_descendants_lt (hacyclic : Acyclic deps) (hv : v ∈ vs) :
    (descendants deps vs v).card < vs.length := by
  classical
  have hsub : descendants deps vs v ⊂ vs.toFinset := by
    refine (Finset.ssubset_iff_of_subset (Finset.filter_subset _ _)).mpr ⟨v, ?_, fun h ↦ ?_⟩
    · exact List.mem_toFinset.mpr hv
    · exact hacyclic v (mem_descendants.mp h).2
  exact (Finset.card_lt_card hsub).trans_le (toFinset_card_le vs)

namespace Closed

theorem card_descendants_lt_card (h : Closed deps vs) (hacyclic : Acyclic deps) (hv : v ∈ vs)
    (hw : w ∈ deps v) : (descendants deps vs w).card < (descendants deps vs v).card := by
  refine Finset.card_lt_card ((Finset.ssubset_iff_of_subset fun u hu ↦ ?_).mpr ⟨w, ?_, ?_⟩)
  · obtain ⟨hmem, hpath⟩ := mem_descendants.mp hu
    exact mem_descendants.mpr ⟨hmem, head hw hpath⟩
  · exact mem_descendants.mpr ⟨h.mem hv hw, single hw⟩
  · exact fun hself ↦ hacyclic w (mem_descendants.mp hself).2

/-- **Recursion along dependencies** that is limited by a depth ends within the number of
vertices. -/
theorem induction (h : Closed deps vs) (hacyclic : Acyclic deps) {P : ℕ → V → Prop}
    (step : ∀ depth v, v ∈ vs → (∀ w ∈ deps v, P depth w) → P (depth + 1) v) {depth : ℕ}
    (hdepth : vs.length ≤ depth) (hv : v ∈ vs) : P depth v := by
  have hall : ∀ depth, ∀ v ∈ vs, (descendants deps vs v).card < depth → P depth v := by
    intro depth
    induction depth with
    | zero => exact fun v _ hlt ↦ absurd hlt (Nat.not_lt_zero _)
    | succ depth ih =>
      intro v hv hlt
      refine step depth v hv fun w hw ↦ ih w (h.mem hv hw) ?_
      exact (h.card_descendants_lt_card hacyclic hv hw).trans_le (Nat.le_of_lt_succ hlt)
  exact hall depth v hv ((card_descendants_lt hacyclic hv).trans_le hdepth)

/-- Induction on what a vertex depends on. -/
theorem induction_on (h : Closed deps vs) (hacyclic : Acyclic deps) {P : V → Prop}
    (step : ∀ v ∈ vs, (∀ w ∈ deps v, P w) → P v) (hv : v ∈ vs) : P v :=
  h.induction (P := fun _ v ↦ P v) hacyclic (fun _ ↦ step) le_rfl hv

/-- The value of a vertex is given by those of its dependencies. -/
def Local (deps : V → List V) (F : (V → α) → V → α) : Prop :=
  ∀ ⦃σ τ v⦄, (∀ w ∈ deps v, σ w = τ w) → F σ v = F τ v

/-- The equations unrolled to a depth, with `a` below it. -/
def unroll (F : (V → α) → V → α) (a : α) : ℕ → V → α
  | 0 => fun _ ↦ a
  | depth + 1 => F (unroll F a depth)

theorem exists_solution (h : Closed deps vs) (hacyclic : Acyclic deps) [Inhabited α]
    {F : (V → α) → V → α} (hF : Local deps F) : ∃ σ : V → α, ∀ v ∈ vs, σ v = F σ v := by
  refine ⟨unroll F default vs.length, fun v hv ↦ ?_⟩
  -- one more step makes no difference at that depth
  refine h.induction (P := fun depth v ↦ unroll F default depth v = unroll F default (depth + 1) v)
    hacyclic (fun depth v _ ih ↦ ?_) le_rfl hv
  exact hF ih

end Closed

/-! ## The search for a cycle -/

inductive Mark
  | unvisited
  | onPath
  | done
  deriving DecidableEq

/-- The marks, and the path from where the search was started. -/
structure Search (V : Type*) where
  mark : V → Mark
  path : List V

inductive SearchError (V : Type*)
  | cycle (chain : List V)
  | outOfFuel

namespace Search

variable {s s' t : Search V} {fuel : ℕ}

def start : Search V := ⟨fun _ ↦ .unvisited, []⟩

/-- What is done depends on nothing for ever, and the marked path is a path. -/
structure Sound (deps : V → List V) (s : Search V) : Prop where
  acc : ∀ v, s.mark v = .done → Acc (fun w v ↦ w ∈ deps v) v
  onPath_iff : ∀ v, s.mark v = .onPath ↔ v ∈ s.path
  isChain : s.path.IsChain fun v w ↦ w ∈ deps v

theorem sound_start : Sound deps start where
  acc v h := by cases h
  onPath_iff v := by simp [start]
  isChain := isChain_nil

/-- The path can be continued with a vertex. -/
def Next (deps : V → List V) (s : Search V) (v : V) : Prop := ∀ u ∈ s.path.getLast?, v ∈ deps u

theorem next_start : Next deps start v := fun _ h ↦ nomatch h

/-- What a visit leaves as it was. -/
structure Grows (s s' : Search V) : Prop where
  path_eq : s'.path = s.path
  done : ∀ w, s.mark w = .done → s'.mark w = .done

theorem Grows.refl (s : Search V) : Grows s s := ⟨rfl, fun _ h ↦ h⟩

theorem Grows.trans (h : Grows s s') (h' : Grows s' t) : Grows s t :=
  ⟨h'.path_eq.trans h.path_eq, fun w hw ↦ h'.done w (h.done w hw)⟩

theorem Next.grows (h : Next deps s v) (hgrows : Grows s s') : Next deps s' v := by
  rw [Next, hgrows.path_eq]
  exact h

/-- A vertex that is met again on the path lies on a cycle. -/
theorem Sound.transGen (hs : Sound deps s) (hmark : s.mark v = .onPath) (hnext : Next deps s v) :
    TransGen (fun v w ↦ w ∈ deps v) v v := by
  obtain ⟨l, l', hpath⟩ := append_of_mem ((hs.onPath_iff v).mp hmark)
  have hchain := hs.isChain
  rw [hpath, isChain_append] at hchain
  have hback : v ∈ deps ((v :: l').getLast (cons_ne_nil v l')) := by
    refine hnext _ ?_
    rw [hpath, getLast?_append_of_ne_nil _ (cons_ne_nil v l'), getLast?_eq_getLast_of_ne_nil,
      mem_some_iff]
  exact tail' (relationReflTransGen_of_exists_isChain_cons l' hchain.2.1 rfl) hback

/-- A loop of visits, if each one keeps the search sound and finishes its vertex. -/
theorem foldlM_ok {ε : Type*} {f : Search V → V → Except ε (Search V)} {ws : List V}
    (hf : ∀ {s s' w}, f s w = .ok s' → Sound deps s → Next deps s w →
      (Sound deps s' ∧ Grows s s') ∧ s'.mark w = .done)
    (h : ws.foldlM f s = .ok s') (hs : Sound deps s) (hnext : ∀ w ∈ ws, Next deps s w) :
    (Sound deps s' ∧ Grows s s') ∧ ∀ w ∈ ws, s'.mark w = .done := by
  induction ws generalizing s with
  | nil =>
    cases h
    exact ⟨⟨hs, Grows.refl _⟩, fun w hw ↦ nomatch hw⟩
  | cons w ws ih =>
    rw [foldlM_cons, bind_eq_ok_iff] at h
    obtain ⟨t, ht, h⟩ := h
    obtain ⟨⟨hst, hgrows⟩, hw⟩ := hf ht hs (hnext w mem_cons_self)
    obtain ⟨⟨hs', hgrows'⟩, hdone⟩ := ih h hst fun u hu ↦
      (hnext u (mem_cons_of_mem w hu)).grows hgrows
    refine ⟨⟨hs', hgrows.trans hgrows'⟩, fun u hu ↦ ?_⟩
    rcases mem_cons.mp hu with rfl | hu
    · exact hgrows'.done u hw
    · exact hdone u hu

/-! ### Visits -/

variable [DecidableEq V]

def enter (v : V) (s : Search V) : Search V := ⟨update s.mark v .onPath, s.path ++ [v]⟩

theorem mark_enter : (s.enter v).mark w = if w = v then .onPath else s.mark w :=
  update_apply ..

@[simp] theorem path_enter : (s.enter v).path = s.path ++ [v] := rfl

def leave (v : V) (s : Search V) : Search V := ⟨update s.mark v .done, s.path.dropLast⟩

theorem mark_leave : (s.leave v).mark w = if w = v then .done else s.mark w :=
  update_apply ..

@[simp] theorem path_leave : (s.leave v).path = s.path.dropLast := rfl

/-- The part of the path that leads from a vertex back to it. -/
def chainAt (v : V) (s : Search V) : List V :=
  s.path.drop ((s.path.findIdx? (· == v)).getD 0) ++ [v]

/-- Depth-first search from one vertex. -/
def visit (deps : V → List V) : ℕ → V → Search V → Except (SearchError V) (Search V)
  | 0, _, _ => .error .outOfFuel
  | fuel + 1, v, s => match s.mark v with
    | .done => .ok s
    | .onPath => .error (.cycle (s.chainAt v))
    | .unvisited => leave v <$> (deps v).foldlM (fun s w ↦ visit deps fuel w s) (s.enter v)

/-- The search from every vertex in turn. -/
def search (deps : V → List V) (vs : List V) : Except (SearchError V) (Search V) :=
  vs.foldlM (fun s v ↦ visit deps (vs.length + 1) v s) start

theorem Sound.enter (hs : Sound deps s) (hnext : Next deps s v) : Sound deps (s.enter v) := by
  refine ⟨fun w hw ↦ ?_, fun w ↦ ?_, ?_⟩
  · rw [mark_enter] at hw
    split_ifs at hw
    exact hs.acc w hw
  · rw [mark_enter, path_enter, List.mem_append, mem_singleton, ← hs.onPath_iff]
    by_cases hw : w = v
    · simp [hw]
    · simp [hw]
  · refine isChain_append.mpr ⟨hs.isChain, isChain_singleton v, ?_⟩
    intro u hu w hw
    obtain rfl := Option.some.inj hw
    exact hnext u hu

theorem next_enter (hw : w ∈ deps v) : Next deps (s.enter v) w := by
  intro u hu
  rw [path_enter, getLast?_concat, mem_some_iff] at hu
  exact hu ▸ hw

theorem Sound.leave (hs : Sound deps s) (hmark : s.mark v = .unvisited) (hs' : Sound deps s')
    (hgrows : Grows (s.enter v) s') (hdeps : ∀ w ∈ deps v, s'.mark w = .done) :
    Sound deps (s'.leave v) ∧ Grows s (s'.leave v) := by
  have hpath : s'.path = s.path ++ [v] := hgrows.path_eq
  have hleave : (s'.leave v).path = s.path := by rw [path_leave, hpath, dropLast_concat]
  have hv : v ∉ s.path := by simp [← hs.onPath_iff, hmark]
  refine ⟨⟨fun w hw ↦ ?_, fun w ↦ ?_, hleave ▸ hs.isChain⟩, hleave, fun w hw ↦ ?_⟩
  · rw [mark_leave] at hw
    split_ifs at hw with heq
    · exact heq ▸ ⟨v, fun u hu ↦ hs'.acc u (hdeps u hu)⟩
    · exact hs'.acc w hw
  · rw [hleave, mark_leave]
    by_cases heq : w = v
    · simp [heq, hv]
    · simp [heq, hs'.onPath_iff, hpath]
  · have hne : w ≠ v := by
      rintro rfl
      cases hmark.symm.trans hw
    rw [mark_leave, if_neg hne]
    refine hgrows.done w ?_
    rw [mark_enter, if_neg hne, hw]

/-- **One visit** finishes its vertex. -/
theorem visit_ok (h : visit deps fuel v s = .ok s') (hs : Sound deps s) (hnext : Next deps s v) :
    (Sound deps s' ∧ Grows s s') ∧ s'.mark v = .done := by
  induction fuel generalizing v s s' with
  | zero => cases h
  | succ fuel ih =>
    rw [visit] at h
    split at h
    case h_1 hmark =>
      cases h
      exact ⟨⟨hs, Grows.refl _⟩, hmark⟩
    case h_2 => cases h
    case h_3 hmark =>
      rw [map_eq_ok_iff] at h
      obtain ⟨t, ht, rfl⟩ := h
      obtain ⟨⟨hst, hgrows⟩, hdeps⟩ := foldlM_ok ih ht (hs.enter hnext) fun w ↦ next_enter
      exact ⟨hs.leave hmark hst hgrows hdeps, mark_leave.trans (if_pos rfl)⟩

theorem visit_cycle {chain : List V} (h : visit deps fuel v s = .error (.cycle chain))
    (hs : Sound deps s) (hnext : Next deps s v) : ¬Acyclic deps := by
  induction fuel generalizing v s with
  | zero => cases h
  | succ fuel ih =>
    rw [visit] at h
    split at h
    case h_1 => cases h
    case h_2 hmark => exact fun hacyclic ↦ hacyclic v (hs.transGen hmark hnext)
    case h_3 hmark =>
      rw [map_eq_error_iff] at h
      obtain ⟨ws, w, ws', t, hws, hok, herror⟩ := foldlM_eq_error h
      have hmem : ∀ u ∈ ws ++ w :: ws', Next deps (s.enter v) u := fun u hu ↦ next_enter (hws ▸ hu)
      obtain ⟨⟨hst, hgrows⟩, -⟩ := foldlM_ok visit_ok hok (hs.enter hnext) fun u hu ↦
        hmem u (mem_append_left _ hu)
      exact ih herror hst ((hmem w (by simp)).grows hgrows)

/-! ### The end of a search -/

/-- Nothing is made unvisited again. -/
def Keeps (s s' : Search V) : Prop := ∀ w, s'.mark w = .unvisited → s.mark w = .unvisited

omit [DecidableEq V] in
theorem Keeps.trans (h : Keeps s s') (h' : Keeps s' t) : Keeps s t := fun w hw ↦ h w (h' w hw)

theorem keeps_enter (s : Search V) (v : V) : Keeps s (s.enter v) := by
  intro w hw
  rw [mark_enter] at hw
  split_ifs at hw
  exact hw

theorem keeps_leave (s : Search V) (v : V) : Keeps s (s.leave v) := by
  intro w hw
  rw [mark_leave] at hw
  split_ifs at hw
  exact hw

theorem keeps_of_visit (h : visit deps fuel v s = .ok s') : Keeps s s' := by
  induction fuel generalizing v s s' with
  | zero => cases h
  | succ fuel ih =>
    rw [visit] at h
    split at h
    case h_1 =>
      cases h
      exact fun _ hw ↦ hw
    case h_2 => cases h
    case h_3 =>
      rw [map_eq_ok_iff] at h
      obtain ⟨t, ht, rfl⟩ := h
      have hloop := rel_of_foldlM_eq_ok (R := Keeps) (fun _ _ hw ↦ hw) Keeps.trans ih ht
      exact (keeps_enter s v).trans (hloop.trans (keeps_leave t v))

/-- What has not been visited yet. -/
def unvisited (vs : List V) (s : Search V) : Finset V :=
  vs.toFinset.filter fun v ↦ s.mark v = .unvisited

theorem Keeps.unvisited_subset (h : Keeps s s') : s'.unvisited vs ⊆ s.unvisited vs :=
  Finset.monotone_filter_right _ fun w _ ↦ h w

theorem card_unvisited_enter (hv : v ∈ vs) (hmark : s.mark v = .unvisited) :
    ((s.enter v).unvisited vs).card < (s.unvisited vs).card := by
  refine Finset.card_lt_card ((Finset.ssubset_iff_of_subset ?_).mpr ⟨v, ?_, ?_⟩)
  · exact (keeps_enter s v).unvisited_subset
  · exact Finset.mem_filter.mpr ⟨List.mem_toFinset.mpr hv, hmark⟩
  · simp [unvisited, mark_enter]

/-- A visit takes no more fuel than there are vertices to visit. -/
theorem visit_ne_outOfFuel (hclosed : Closed deps vs) (hv : v ∈ vs)
    (hfuel : (s.unvisited vs).card < fuel) : visit deps fuel v s ≠ .error .outOfFuel := by
  induction fuel generalizing v s with
  | zero => exact absurd hfuel (Nat.not_lt_zero _)
  | succ fuel ih =>
    intro h
    rw [visit] at h
    split at h
    case h_1 => cases h
    case h_2 => cases h
    case h_3 hmark =>
      rw [map_eq_error_iff] at h
      obtain ⟨ws, w, ws', t, hws, hok, herror⟩ := foldlM_eq_error h
      have hw : w ∈ deps v := hws ▸ mem_append_right ws mem_cons_self
      have hkeeps := rel_of_foldlM_eq_ok (R := Keeps) (fun _ _ hw ↦ hw) Keeps.trans keeps_of_visit
        hok
      refine ih (hclosed.mem hv hw) ?_ herror
      have hlt := card_unvisited_enter hv hmark
      have hle := Finset.card_le_card (hkeeps.unvisited_subset : _ ⊆ (s.enter v).unvisited vs)
      omega

end Search

namespace Closed

open Search

variable [DecidableEq V]

theorem search_ne_outOfFuel (h : Closed deps vs) : search deps vs ≠ .error .outOfFuel := by
  intro herror
  obtain ⟨ws, w, ws', t, rfl, -, hvisit⟩ := foldlM_eq_error herror
  refine visit_ne_outOfFuel h (mem_append_right ws mem_cons_self) ?_ hvisit
  refine Nat.lt_succ_of_le ((Finset.card_le_card (Finset.filter_subset _ _)).trans ?_)
  exact toFinset_card_le _

omit [DecidableEq V] in
/-- A vertex from which every path ends is on no cycle. -/
theorem not_transGen_of_acc (h : Acc (fun w v ↦ w ∈ deps v) v) :
    ¬TransGen (fun v w ↦ w ∈ deps v) v v := by
  induction h with
  | intro v _ ih =>
    intro hcycle
    obtain ⟨w, hw, hback⟩ := head'_iff.mp hcycle
    exact ih w hw (tail' hback hw)

/-- **The search succeeds** exactly if there is no cycle. -/
theorem search_eq_ok_iff (h : Closed deps vs) :
    (∃ s, search deps vs = .ok s) ↔ Acyclic deps := by
  constructor
  · rintro ⟨s, hs⟩ v
    obtain ⟨⟨hsound, -⟩, hdone⟩ := foldlM_ok visit_ok hs sound_start fun _ _ ↦ next_start
    by_cases hv : v ∈ vs
    · exact not_transGen_of_acc (hsound.acc v (hdone v hv))
    · intro hcycle
      obtain ⟨w, hw, -⟩ := head'_iff.mp hcycle
      rw [h.nil hv] at hw
      cases hw
  · intro hacyclic
    rcases herror : search deps vs with e | s
    · rcases e with chain | _
      · obtain ⟨ws, w, ws', t, -, hok, hvisit⟩ := foldlM_eq_error herror
        obtain ⟨⟨hsound, hgrows⟩, -⟩ := foldlM_ok visit_ok hok sound_start fun _ _ ↦ next_start
        exact absurd hacyclic (visit_cycle hvisit hsound (next_start.grows hgrows))
      · exact absurd herror h.search_ne_outOfFuel
    · exact ⟨s, rfl⟩

end Closed

end Dependency

end Hypershunt
