import Hypershunt.Handler.BackendHeaders
import Hypershunt.Vars.Template

/-!
# Where the values of a header come from

A `set` rule is meant to replace what a client has sent. A rule whose template renders to nothing,
or to text that cannot be a header value, is skipped, and what the client has sent stays.

With respect to one header an operation does one of two things. It *pins* the header, whose values
then do not depend on those before; or it adds a fixed list of values to them. So after all rules
the values are independent of the request exactly if some rule pins the header (`unspoofable_iff`).
-/

namespace Hypershunt

namespace Proxy

open HeaderOp HeaderMap

variable {T : Type}

/-- After the operation the values of the header do not depend on those before. -/
def Pins (render : T → String) (n : HeaderName) : HeaderOp T → Prop
  | .set m template => m = n ∧ (value render template).isSome = true
  | .add _ _ => False
  | .remove m => m = n

variable {render : T → String} {n : HeaderName}

/-- **What an operation does to one header.** -/
theorem getAll_apply (render : T → String) (n : HeaderName) (op : HeaderOp T) :
    ∃ new : List HeaderValue,
      (Pins render n op ∧ ∀ h : HeaderMap, (op.apply render h).getAll n = new) ∨
        (¬Pins render n op ∧
          ∀ h : HeaderMap, (op.apply render h).getAll n = h.getAll n ++ new) := by
  by_cases hname : opName op = n
  · subst hname
    cases op with
    | set m template =>
      rcases hvalue : value render template with _ | v
      · refine ⟨[], Or.inr ⟨fun hpins ↦ ?_, fun h ↦ ?_⟩⟩
        · exact absurd hpins.2 (by simp [hvalue])
        · rw [apply, hvalue, List.append_nil]
      · refine ⟨[v], Or.inl ⟨⟨rfl, by simp [hvalue]⟩, fun h ↦ ?_⟩⟩
        rw [apply, hvalue]
        exact getAll_insert_self
    | add m template =>
      refine ⟨(value render template).toList, Or.inr ⟨id, fun h ↦ ?_⟩⟩
      have hm : m = opName (.add m template) := rfl
      rw [apply]
      rcases value render template with _ | v
      · exact (List.append_nil _).symm
      · rw [getAll_append, if_pos hm]
        rfl
    | remove m => exact ⟨[], Or.inl ⟨rfl, fun h ↦ getAll_remove_self⟩⟩
  · refine ⟨[], Or.inr ⟨fun hpins ↦ ?_, fun h ↦ ?_⟩⟩
    · cases op with
      | set m template => exact hname hpins.1
      | add m template => exact hpins
      | remove m => exact hname hpins
    · rw [getAll_apply_of_ne hname, List.append_nil]

/-- **What all rules do to one header.** -/
theorem getAll_applyHeaders (render : T → String) (n : HeaderName) (ops : List (HeaderOp T)) :
    ∃ new : List HeaderValue,
      ((∃ op ∈ ops, Pins render n op) ∧
          ∀ h : HeaderMap, (applyHeaders render ops h).getAll n = new) ∨
        ((∀ op ∈ ops, ¬Pins render n op) ∧
          ∀ h : HeaderMap, (applyHeaders render ops h).getAll n = h.getAll n ++ new) := by
  induction ops with
  | nil =>
    refine ⟨[], Or.inr ⟨fun op hop ↦ absurd hop List.not_mem_nil, fun h ↦ ?_⟩⟩
    rw [applyHeaders, List.foldl_nil, List.append_nil]
  | cons op ops ih =>
    obtain ⟨later, ⟨⟨op', hop', hpins⟩, hlater⟩ | ⟨hfree, hlater⟩⟩ := ih
    · exact ⟨later, Or.inl ⟨⟨op', List.mem_cons_of_mem op hop', hpins⟩, fun h ↦ hlater _⟩⟩
    · obtain ⟨new, ⟨hpins, hnew⟩ | ⟨hadds, hnew⟩⟩ := getAll_apply render n op
      · refine ⟨new ++ later, Or.inl ⟨⟨op, List.mem_cons_self, hpins⟩, fun h ↦ ?_⟩⟩
        exact (hlater _).trans (congrArg (· ++ later) (hnew h))
      · refine ⟨new ++ later, Or.inr ⟨List.forall_mem_cons.mpr ⟨hadds, hfree⟩, fun h ↦ ?_⟩⟩
        refine (hlater _).trans ?_
        rw [hnew h, List.append_assoc]

/-! ## Rules of a configuration -/

variable {V S : Type} (σ : V → String) (ctx : Vars.RequestContext S)

/-- **When a header cannot be spoofed**: whatever a request has sent, the values after the rules are
the same. A `set` does this only if it is carried out. -/
theorem unspoofable_iff (ops : List (HeaderOp (Vars.Template V))) (n : HeaderName) :
    (∀ h h' : HeaderMap,
        (applyHeaders (fun t ↦ t.expand σ ctx none) ops h).getAll n =
          (applyHeaders (fun t ↦ t.expand σ ctx none) ops h').getAll n) ↔
      ∃ op ∈ ops, Pins (fun t ↦ t.expand σ ctx none) n op := by
  obtain ⟨new, ⟨hpins, hnew⟩ | ⟨hfree, hnew⟩⟩ :=
    getAll_applyHeaders (fun t ↦ t.expand σ ctx none) n ops
  · exact ⟨fun _ ↦ hpins, fun _ h h' ↦ (hnew h).trans (hnew h').symm⟩
  · refine ⟨fun hsame ↦ ?_, fun ⟨op, hop, hpins⟩ ↦ absurd hpins (hfree op hop)⟩
    -- one request without the header and one with it
    have hlength := congrArg List.length (hsame [] [(n, "")])
    rw [hnew, hnew, List.length_append, List.length_append] at hlength
    simp [getAll] at hlength

/-- The backend is told the subject of the client's certificate. -/
private def passSubject : List (HeaderOp (Vars.Template Empty)) :=
  [.set "x-client-cert" [.var .clientCertSubject none]]

/-- A client without a certificate names the subject itself. -/
theorem subject_spoofed :
    (applyHeaders (fun t ↦ t.expand Empty.elim (Vars.RequestContext.empty ()) none) passSubject
        []).getAll "x-client-cert" = [] ∧
      (applyHeaders (fun t ↦ t.expand Empty.elim (Vars.RequestContext.empty ()) none) passSubject
        [("x-client-cert", "CN=admin")]).getAll "x-client-cert" = ["CN=admin"] := by
  constructor <;> decide +kernel

end Proxy

end Hypershunt
