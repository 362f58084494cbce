import Hypershunt.Cache.Entry
import Hypershunt.Handler.StaticFiles
import Hypershunt.Http.FieldList

/-!
# Two comparisons of tags

Files are sent with a tag, and a client that has the file names the tag in `If-None-Match`. The
header may be an asterisk or a list, and a tag in it may be marked as weak. The cache reads all that
(`ifNoneMatchHits`). The handler for files compares the header with its tag, as one text.

Where the text is the tag the cache agrees. So the two agree exactly on that text and on those that
the cache does not match either (`agree_iff`).
-/

namespace Hypershunt

namespace StaticFiles

open Listener (RequestContext)
open StaticHandler (bare)

open StoredResponse Text

/-! ## Tags of files -/

theorem mem_computeEtag {md : Metadata} {c : Char} (hc : c ∈ (computeEtag md).toList) :
    c = '"' ∨ c = '-' ∨ c.isDigit = true := by
  simp only [computeEtag, String.toList_append, List.mem_append] at hc
  rcases hc with (((hc | hc) | hc) | hc) | hc
  · exact Or.inl (List.mem_singleton.mp hc)
  · exact Or.inr (Or.inr (Text.isDigit_of_mem_repr hc))
  · exact Or.inr (Or.inl (List.mem_singleton.mp hc))
  · exact Or.inr (Or.inr (Text.isDigit_of_mem_repr hc))
  · exact Or.inl (List.mem_singleton.mp hc)

theorem isOws_of_isDigit {c : Char} (hc : c.isDigit = true) : isOws c = false := by
  rw [isOws, Bool.or_eq_false_iff, beq_eq_false_iff_ne, beq_eq_false_iff_ne]
  constructor <;> rintro rfl <;> exact absurd hc (by decide)

theorem trim_computeEtag (md : Metadata) : Text.trim (computeEtag md) = computeEtag md := by
  have hvisible : ∀ c ∈ (computeEtag md).toList, visibleAscii c = true ∧ isOws c = false := by
    intro c hc
    rcases mem_computeEtag hc with rfl | rfl | hdigit
    · decide
    · decide
    · exact ⟨visibleAscii_of_isDigit hdigit, isOws_of_isDigit hdigit⟩
  rw [trim_eq_trimOws fun c hc ↦ (hvisible c hc).1, trimOws_of_all fun c hc ↦ (hvisible c hc).2]

theorem split_computeEtag (md : Metadata) :
    Text.split ',' (computeEtag md) = [computeEtag md] := by
  have hjoin := Text.split_intercalate (c := ',') (List.cons_ne_nil (computeEtag md) []) (by
    intro p hp hc
    rw [List.mem_singleton.mp hp] at hc
    rcases mem_computeEtag hc with h | h | h <;> exact absurd h (by decide))
  rwa [String.intercalate_singleton] at hjoin

/-- A tag is not marked as weak, and only one with the same text is the same. -/
theorem stripWeak_eq_computeEtag_iff {m : String} (md : Metadata) :
    StoredResponse.stripWeak m = StoredResponse.stripWeak (computeEtag md) ↔
      m = computeEtag md ∨ m = "W/" ++ computeEtag md := by
  have hquote : ∃ cs, (computeEtag md).toList = '"' :: cs := by
    simp only [computeEtag, String.toList_append]
    exact ⟨_, rfl⟩
  obtain ⟨cs, hcs⟩ := hquote
  have hstrong : stripWeak (computeEtag md) = computeEtag md := by
    rw [stripWeak, stripPrefix, hcs]
    rfl
  rw [hstrong, stripWeak]
  rcases hstrip : stripPrefix "W/" m with _ | rest
  · rw [Option.getD_none]
    refine ⟨Or.inl, fun h ↦ h.elim id fun hweak ↦ ?_⟩
    rw [hweak, stripPrefix, if_pos] at hstrip
    · cases hstrip
    · rw [String.toList_append, List.isPrefixOf_iff_prefix]
      exact List.prefix_append _ _
  · rw [Option.getD_some, eq_append_of_stripPrefix hstrip]
    constructor
    · exact fun h ↦ Or.inr (h ▸ rfl)
    · rintro (h | h)
      · -- a tag starts with a quote
        have hhead := congrArg (fun s ↦ s.toList.head?) h
        simp only [String.toList_append, hcs] at hhead
        cases hhead
      · exact String.append_right_inj "W/" |>.mp h

/-! ## The two answers -/

/-- Some member of the header stands for the tag. -/
def Names (v etag : String) : Prop :=
  trim v = "*" ∨
    ∃ m ∈ split ',' (trim v), trim m = etag ∨ trim m = "W/" ++ etag

instance (v etag : String) : Decidable (Names v etag) :=
  inferInstanceAs (Decidable (_ ∨ ∃ m ∈ split ',' (trim v), _))

theorem ifNoneMatchHits_iff (v : String) (md : Metadata) :
    ifNoneMatchHits v (some (computeEtag md)) = true ↔ Names v (computeEtag md) := by
  rw [ifNoneMatchHits, Names]
  by_cases hstar : trim v = "*"
  · rw [if_pos hstar]
    exact ⟨fun _ ↦ Or.inl hstar, fun _ ↦ rfl⟩
  · rw [if_neg hstar, or_iff_right hstar, List.any_eq_true]
    refine exists_congr fun m ↦ and_congr_right fun _ ↦ ?_
    rw [beq_iff_eq, stripWeak_eq_computeEtag_iff]

theorem names_computeEtag (md : Metadata) : Names (computeEtag md) (computeEtag md) := by
  right
  rw [trim_computeEtag, split_computeEtag]
  exact ⟨_, List.mem_singleton_self _, Or.inl (trim_computeEtag md)⟩

variable {T : Type} {x : Externals T} {fs : FileSystem} {h : StaticHandler T}
  {matchedPrefix v : String} {ctx : RequestContext} {req : Request} {found : Found}

/-- The handler says that a file has not changed for the tag as it is. -/
theorem status_sendFile_eq_304_iff (hv : req.headers.getStr "if-none-match" = some v) :
    (sendFile x fs req found).status = 304 ↔ v = computeEtag found.metadata := by
  have hmodified : isNotModified req (computeEtag found.metadata) = true ↔
      v = computeEtag found.metadata := by
    rw [isNotModified, hv, Option.any_some, beq_iff_eq]
  rw [← hmodified, sendFile]
  dsimp only
  split_ifs with hsame
  · exact ⟨fun _ ↦ hsame, fun _ ↦ rfl⟩
  · refine ⟨fun hstatus ↦ ?_, fun hsame' ↦ absurd hsame' hsame⟩
    split at hstatus
    · cases hstatus
    · split at hstatus <;> cases hstatus
    · split at hstatus <;> cases hstatus

/-- **The handler and the cache agree on a header exactly if it is the tag or does not name it.** -/
theorem agree_iff (dates : HttpDate) (e : StoredResponse)
    (hlocate : h.locate x fs matchedPrefix ctx req.uri.path = .ok found)
    (hv : req.headers.getStr "if-none-match" = some v)
    (hetag : e.etag = some (computeEtag found.metadata)) :
    ((h.handle x fs matchedPrefix ctx req).status = 304 ↔
        e.clientNotModified dates req.headers = true) ↔
      (v = computeEtag found.metadata ∨ ¬Names v (computeEtag found.metadata)) := by
  have hcache : e.clientNotModified dates req.headers = true ↔
      Names v (computeEtag found.metadata) := by
    rw [clientNotModified, hv, hetag]
    exact ifNoneMatchHits_iff v found.metadata
  rw [handle_of_locate hlocate, status_sendFile_eq_304_iff hv, hcache]
  constructor
  · intro hiff
    by_cases hnames : Names v (computeEtag found.metadata)
    · exact Or.inl (hiff.mpr hnames)
    · exact Or.inr hnames
  · rintro (rfl | hnot)
    · exact ⟨fun _ ↦ names_computeEtag found.metadata, fun _ ↦ rfl⟩
    · refine ⟨fun hsame ↦ ?_, fun hnames ↦ absurd hnames hnot⟩
      rw [hsame] at hnot
      exact absurd (names_computeEtag found.metadata) hnot

private def getTagged (v : HeaderValue) : Request := .bare .get "/five" [("if-none-match", v)]

private def taggedEntry : StoredResponse := { StoredResponse.bare [] 0 0 with etag := "\"0-5\"" }

private def taggedFile : Found := ⟨"/five", none, "/srv/five", ⟨false, true, 5, none⟩⟩

private theorem locate_tagged (v : HeaderValue) :
    (bare "/srv").locate .bare fiveBytes.fileSystem "/" {} (getTagged v).uri.path =
      .ok taggedFile :=
  locate_eq_ok "/srv" "/srv/five" ⟨false, true, 5, none⟩ rfl rfl (by decide +kernel) rfl
    (by decide +kernel)

theorem agree_on_other_tags :
    (((bare "/srv").handle .bare fiveBytes.fileSystem "/" {}
        (getTagged "\"1-5\", W/\"0-4\"")).status = 304 ↔
      taggedEntry.clientNotModified .blank (getTagged "\"1-5\", W/\"0-4\"").headers = true) := by
  refine (agree_iff .blank taggedEntry (locate_tagged _) (v := "\"1-5\", W/\"0-4\"")
    (by decide +kernel) (by decide +kernel)).mpr (Or.inr ?_)
  decide +kernel

/-- The file has not changed, and the cache would say so. The handler sends it again. -/
theorem weak_tag_ignored :
    ((bare "/srv").handle .bare fiveBytes.fileSystem "/" {}
        (getTagged "\"1-5\", W/\"0-5\"")).status = 200 ∧
      ((bare "/srv").handle .bare fiveBytes.fileSystem "/" {} (getTagged "*")).status = 200 ∧
      taggedEntry.etag = some (computeEtag taggedFile.metadata) ∧
      taggedEntry.clientNotModified .blank (getTagged "\"1-5\", W/\"0-5\"").headers = true ∧
      taggedEntry.clientNotModified .blank (getTagged "*").headers = true := by
  rw [handle_of_locate (locate_tagged _), handle_of_locate (locate_tagged _)]
  exact ⟨by decide +kernel, by decide +kernel, by decide +kernel, by decide +kernel,
    by decide +kernel⟩

end StaticFiles

end Hypershunt
