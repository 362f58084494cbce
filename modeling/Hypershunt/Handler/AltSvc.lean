import Hypershunt.Foundation.Text

/-!
# Alternative services

`parse_alt_svc_h3` of `handler/proxy/inner.rs` looks through the value of an `Alt-Svc` header for an
alternative that is HTTP/3 and has a port and a maximum age.

An alternative that it cannot read ends the search, where one for another protocol is passed over:
the value `clear` or an alternative without a maximum age hides what follows it. The search finds
what it is for precisely when nothing unreadable stands in front (`first_h3_iff`).
-/

namespace Hypershunt

namespace AltSvc

/-- What the search makes of one alternative. -/
inductive Verdict
  | found (port : UInt16) (ma : ℕ)
  | skipped
  /-- The search returns without a result. -/
  | gaveUp
  deriving DecidableEq

/-- The port, with or without the quotes and the colon. -/
def portText (rest : String) : String :=
  let text := Text.trimMatches '"' (Text.trim rest)
  (Text.stripPrefix ":" text).getD text

/-- The maximum age, by the last parameter that gives one. -/
def maxAge (params : List String) : Option ℕ :=
  params.foldl (fun ma param ↦ match Text.stripPrefix "ma=" param with
    | some rest => Text.parseU64 (Text.trim rest)
    | none => ma) none

/-- An alternative and its parameters. -/
def pieces (entry : String) : List String := (Text.split ';' entry).map Text.trim

/-- The body of the loop. -/
def examine (entry : String) : Verdict :=
  match pieces entry with
  | [] => .gaveUp
  | head :: params => match Text.splitOnce '=' head with
    | none => .gaveUp
    | some (proto, rest) =>
      if Text.trim proto ≠ "h3" then .skipped
      else match Text.parseU16 (portText rest) with
        | none => .gaveUp
        | some port => match maxAge params with
          | none => .gaveUp
          | some ma => if ma = 0 then .skipped else .found port ma

def search : List String → Option (UInt16 × ℕ)
  | [] => none
  | entry :: entries => match examine entry with
    | .found port ma => some (port, ma)
    | .skipped => search entries
    | .gaveUp => none

def parseAltSvcH3 (value : String) : Option (UInt16 × ℕ) := search (Text.split ',' value)

/-! ## Alternatives by themselves -/

/-- A well-formed alternative for HTTP/3 that is valid for some time. -/
def IsH3 (entry : String) (port : UInt16) (ma : ℕ) : Prop :=
  ∃ head params proto rest, pieces entry = head :: params ∧
    Text.splitOnce '=' head = some (proto, rest) ∧ Text.trim proto = "h3" ∧
    Text.parseU16 (portText rest) = some port ∧ maxAge params = some ma ∧ 0 < ma

/-- No protocol is named, or it is HTTP/3 and the port or the maximum age cannot be read. -/
def Unreadable (entry : String) : Prop :=
  ∀ head params, pieces entry = head :: params → ∀ proto rest,
    Text.splitOnce '=' head = some (proto, rest) → Text.trim proto = "h3" ∧
      (Text.parseU16 (portText rest) = none ∨ maxAge params = none)

/-- What the search is for: the first of the alternatives that is one for HTTP/3. -/
def FirstH3 (entries : List String) : Option (UInt16 × ℕ) → Prop
  | some (port, ma) => ∃ before entry after, entries = before ++ entry :: after ∧
      IsH3 entry port ma ∧ ∀ e ∈ before, ∀ port ma, ¬IsH3 e port ma
  | none => ∀ e ∈ entries, ∀ port ma, ¬IsH3 e port ma

section

variable {entry : String} {entries : List String} {port : UInt16} {ma : ℕ}

theorem examine_eq_found_iff : examine entry = .found port ma ↔ IsH3 entry port ma := by
  constructor
  · intro h
    rw [examine.eq_def] at h
    split at h
    · exact nomatch h
    · rename_i head params hpieces
      split at h
      · exact nomatch h
      · rename_i proto rest hsplit
        split_ifs at h with hproto
        split at h
        · exact nomatch h
        · rename_i port' hport
          split at h
          · exact nomatch h
          · rename_i ma' hma
            split_ifs at h with hzero
            obtain ⟨rfl, rfl⟩ := Verdict.found.inj h
            exact ⟨head, params, proto, rest, hpieces, hsplit, not_ne_iff.mp hproto, hport, hma,
              Nat.pos_of_ne_zero hzero⟩
  · rintro ⟨head, params, proto, rest, hpieces, hsplit, hproto, hport, hma, hpos⟩
    rw [examine, hpieces]
    simp only [hsplit, hproto, hport, hma, ne_eq, not_true_eq_false, if_false, hpos.ne']

theorem examine_eq_gaveUp_iff : examine entry = .gaveUp ↔ Unreadable entry := by
  have hne : pieces entry ≠ [] := by
    rw [pieces, Text.split]
    simp [List.splitOn_ne_nil]
  obtain ⟨head, params, hpieces⟩ := List.exists_cons_of_ne_nil hne
  have hun : Unreadable entry ↔ ∀ proto rest, Text.splitOnce '=' head = some (proto, rest) →
      Text.trim proto = "h3" ∧
        (Text.parseU16 (portText rest) = none ∨ maxAge params = none) := by
    refine ⟨fun h ↦ h head params hpieces, fun h head' params' hpieces' ↦ ?_⟩
    obtain ⟨rfl, rfl⟩ := List.cons.inj (hpieces.symm.trans hpieces')
    exact h
  rw [hun, examine, hpieces]
  rcases hsplit : Text.splitOnce '=' head with _ | ⟨proto, rest⟩
  · simp [hsplit]
  · by_cases hproto : Text.trim proto = "h3"
    · rcases hport : Text.parseU16 (portText rest) with _ | port
      · simp [hsplit, hproto, hport]
      · rcases hma : maxAge params with _ | ma
        · simp [hsplit, hproto, hport, hma]
        · by_cases hzero : ma = 0 <;> simp [hsplit, hproto, hport, hma, hzero]
    · simp [hsplit, hproto]

/-! ## The search -/

/-- Nothing for HTTP/3 follows an unreadable alternative unless it also stands in front of it. -/
def ReadableUpToH3 (entries : List String) : Prop :=
  ∀ before entry after, entries = before ++ entry :: after → Unreadable entry →
    (∀ e ∈ before, ∀ port ma, ¬IsH3 e port ma) → ∀ e ∈ after, ∀ port ma, ¬IsH3 e port ma

theorem firstH3_cons_iff (h : ∀ port ma, ¬IsH3 entry port ma) {result : Option (UInt16 × ℕ)} :
    FirstH3 (entry :: entries) result ↔ FirstH3 entries result := by
  rcases result with _ | ⟨port, ma⟩
  · simp only [FirstH3, List.forall_mem_cons]
    exact and_iff_right h
  · constructor
    · rintro ⟨before, e, after, hsplit, he, hbefore⟩
      rcases before with _ | ⟨b, before⟩
      · obtain ⟨rfl, rfl⟩ := List.cons.inj hsplit
        exact absurd he (h port ma)
      · obtain ⟨rfl, rfl⟩ := List.cons.inj hsplit
        exact ⟨before, e, after, rfl, he, (List.forall_mem_cons.mp hbefore).2⟩
    · rintro ⟨before, e, after, rfl, he, hbefore⟩
      exact ⟨entry :: before, e, after, rfl, he, List.forall_mem_cons.mpr ⟨h, hbefore⟩⟩

theorem readableUpToH3_cons_iff (h : ∀ port ma, ¬IsH3 entry port ma) :
    ReadableUpToH3 (entry :: entries) ↔
      (Unreadable entry → ∀ e ∈ entries, ∀ port ma, ¬IsH3 e port ma) ∧
        ReadableUpToH3 entries := by
  constructor
  · refine fun hall ↦ ⟨fun hun ↦ hall [] entry entries rfl hun (by simp), ?_⟩
    rintro before e after rfl hun hbefore
    exact hall (entry :: before) e after rfl hun (List.forall_mem_cons.mpr ⟨h, hbefore⟩)
  · rintro ⟨hfirst, hrest⟩ before e after hsplit hun hbefore
    rcases before with _ | ⟨b, before⟩
    · obtain ⟨rfl, rfl⟩ := List.cons.inj hsplit
      exact hfirst hun
    · obtain ⟨rfl, rfl⟩ := List.cons.inj hsplit
      exact hrest before e after rfl hun (List.forall_mem_cons.mp hbefore).2

theorem readableUpToH3_of_isH3 (h : IsH3 entry port ma) : ReadableUpToH3 (entry :: entries) := by
  intro before e after hsplit hun hbefore
  rcases before with _ | ⟨b, before⟩
  · obtain ⟨rfl, rfl⟩ := List.cons.inj hsplit
    rw [← examine_eq_gaveUp_iff, examine_eq_found_iff.mpr h] at hun
    exact nomatch hun
  · obtain ⟨rfl, rfl⟩ := List.cons.inj hsplit
    exact absurd h ((List.forall_mem_cons.mp hbefore).1 port ma)

theorem readableUpToH3_of_forall (h : ∀ e ∈ entries, ∀ port ma, ¬IsH3 e port ma) :
    ReadableUpToH3 entries := by
  rintro before e after rfl - -
  exact fun e' he' ↦ h e' (List.mem_append_right _ (List.mem_cons_of_mem _ he'))

theorem firstH3_search_iff (entries : List String) :
    FirstH3 entries (search entries) ↔ ReadableUpToH3 entries := by
  induction entries with
  | nil => exact iff_of_true (by simp [search, FirstH3]) (by simp [ReadableUpToH3])
  | cons entry entries ih =>
    rw [search]
    rcases hexamine : examine entry with ⟨port, ma⟩ | _ | _
    · have hfound := examine_eq_found_iff.mp hexamine
      exact iff_of_true ⟨[], entry, entries, rfl, hfound, by simp⟩ (readableUpToH3_of_isH3 hfound)
    · have hno : ∀ port ma, ¬IsH3 entry port ma := fun port ma h ↦ by
        rw [examine_eq_found_iff.mpr h] at hexamine
        exact nomatch hexamine
      have hread : ¬Unreadable entry := fun h ↦ by
        rw [examine_eq_gaveUp_iff.mpr h] at hexamine
        exact nomatch hexamine
      simp only
      rw [firstH3_cons_iff hno, readableUpToH3_cons_iff hno, ih]
      exact (and_iff_right fun h ↦ absurd h hread).symm
    · have hno : ∀ port ma, ¬IsH3 entry port ma := fun port ma h ↦ by
        rw [examine_eq_found_iff.mpr h] at hexamine
        exact nomatch hexamine
      -- nothing is found, which is right when there is nothing
      simp only
      rw [firstH3_cons_iff hno, readableUpToH3_cons_iff hno, FirstH3]
      exact ⟨fun h ↦ ⟨fun _ ↦ h, readableUpToH3_of_forall h⟩,
        fun h ↦ h.1 (examine_eq_gaveUp_iff.mp hexamine)⟩

end

/-- **The first alternative for HTTP/3 is found exactly if no unreadable alternative hides it.** -/
theorem first_h3_iff (value : String) :
    FirstH3 (Text.split ',' value) (parseAltSvcH3 value) ↔
      ReadableUpToH3 (Text.split ',' value) :=
  firstH3_search_iff _

theorem clear_hides_h3 :
    parseAltSvcH3 "clear, h3=\":443\"; ma=60" = none ∧
      parseAltSvcH3 "h3=\":444\", h3=\":443\"; ma=60" = none ∧
      ¬FirstH3 (Text.split ',' "clear, h3=\":443\"; ma=60")
        (parseAltSvcH3 "clear, h3=\":443\"; ma=60") := by
  have hnone : parseAltSvcH3 "clear, h3=\":443\"; ma=60" = none := by decide +kernel
  refine ⟨hnone, by decide +kernel, fun h ↦ ?_⟩
  rw [hnone] at h
  have hmem : " h3=\":443\"; ma=60" ∈ Text.split ',' "clear, h3=\":443\"; ma=60" := by
    decide +kernel
  have hfound : examine " h3=\":443\"; ma=60" = .found 443 60 := by decide +kernel
  exact h _ hmem 443 60 (examine_eq_found_iff.mp hfound)

end AltSvc

end Hypershunt
