import Hypershunt.Foundation.Lossy
import Hypershunt.Oidc.Routes

/-!
# The way back from a login

A browser without a session is redirected to the login path, with its target in the query
(`build_login_redirect` of `oidc/routes.rs`), where the login endpoint finds it: the encoded text
has no separator, and decoding gives back the bytes.
-/

namespace Hypershunt

namespace Oidc

open StaticFiles (decodeBytes escaped hexNibble)

open List

variable {b : UInt8} {c : Char}

/-- A character that is not encoded. -/
def isUnreserved (c : Char) : Bool := c.isAlphanum || ['-', '_', '.', '~'].contains c

/-- What is written for a byte. -/
def encodeByte (b : UInt8) : List Char :=
  let c := Char.ofNat b.toNat
  if b < 0x80 ∧ (c.isAlphanum ∨ c ∈ ['-', '_', '.', '~', '/']) then [c]
  else '%' :: (Text.hexByte b).toList

theorem toList_percentEncodeReturn (s : String) :
    (percentEncodeReturn s).toList = (Text.bytes s).flatMap encodeByte := by
  have hloop : ∀ (bs : List UInt8) (out : String), (bs.foldl (fun out b ↦
      let c := Char.ofNat b.toNat
      if b < 0x80 ∧ (c.isAlphanum ∨ c ∈ ['-', '_', '.', '~', '/']) then out.push c
      else out ++ "%" ++ Text.hexByte b) out).toList = out.toList ++ bs.flatMap encodeByte := by
    intro bs
    induction bs with
    | nil => simp
    | cons b bs ih =>
      intro out
      rw [foldl_cons, ih, flatMap_cons, encodeByte]
      dsimp only
      split_ifs <;> simp
  exact hloop _ ""

theorem hexDigit : ∀ n < 16, (Nat.digitChar n).toUpper.isAlphanum = true ∧
    (Nat.digitChar n).toUpper.toNat < 128 ∧
    hexNibble (UInt8.ofNat (Nat.digitChar n).toUpper.toNat) = some (UInt8.ofNat n) := by
  decide

theorem ofNat_nibbles (b : UInt8) :
    UInt8.ofNat (b.toNat / 16) <<< 4 ||| UInt8.ofNat (b.toNat % 16) = b := by
  have hall : ∀ i < 16, ∀ j < 16,
      UInt8.ofNat i <<< 4 ||| UInt8.ofNat j = UInt8.ofNat (16 * i + j) := by decide
  rw [hall _ (by have := b.toNat_lt; omega) _ (by omega), Nat.div_add_mod, UInt8.ofNat_toNat]

theorem mem_encodeByte (h : c ∈ encodeByte b) :
    (isUnreserved c = true ∨ c = '/' ∨ c = '%') ∧ c.toNat < 128 := by
  have hhigh := hexDigit (b.toNat / 16) (by have := b.toNat_lt; omega)
  have hlow := hexDigit (b.toNat % 16) (by omega)
  rw [encodeByte] at h
  split_ifs at h with hsafe
  · obtain rfl := mem_singleton.mp h
    have hlt : (Char.ofNat b.toNat).toNat < 128 := by
      rw [Text.toNat_charOfNat_byte]
      exact UInt8.lt_iff_toNat_lt.mp hsafe.1
    refine ⟨?_, hlt⟩
    have hsafe' := hsafe.2
    simp only [mem_cons, not_mem_nil, or_false] at hsafe'
    simp only [isUnreserved, Bool.or_eq_true, contains_iff_mem, mem_cons, not_mem_nil, or_false]
    grind
  · simp only [Text.hexByte, String.toList_ofList, mem_cons, not_mem_nil, or_false] at h
    rcases h with rfl | rfl | rfl
    · decide
    · exact ⟨Or.inl (Bool.or_eq_true_iff.mpr (Or.inl hhigh.1)), hhigh.2.1⟩
    · exact ⟨Or.inl (Bool.or_eq_true_iff.mpr (Or.inl hlow.1)), hlow.2.1⟩

theorem decodeBytes_cons (hb : b ≠ 0x25) (bs : List UInt8) :
    decodeBytes (b :: bs) = b :: decodeBytes bs := by
  rcases bs with _ | ⟨high, _ | ⟨low, rest⟩⟩
  · rfl
  · rfl
  · rw [decodeBytes, escaped, if_neg hb]

theorem decodeBytes_encodeByte (b : UInt8) (bs : List UInt8) :
    decodeBytes ((encodeByte b).map (fun c ↦ UInt8.ofNat c.toNat) ++ bs) = b :: decodeBytes bs := by
  rw [encodeByte]
  split_ifs with hsafe
  · rw [map_singleton, Text.toNat_charOfNat_byte, UInt8.ofNat_toNat, singleton_append]
    refine decodeBytes_cons ?_ bs
    rintro rfl
    exact absurd hsafe.2 (by decide)
  · have hhigh := hexDigit (b.toNat / 16) (by have := b.toNat_lt; omega)
    have hlow := hexDigit (b.toNat % 16) (by omega)
    have hescaped : escaped (UInt8.ofNat '%'.toNat)
        (UInt8.ofNat (Nat.digitChar (b.toNat / 16)).toUpper.toNat)
        (UInt8.ofNat (Nat.digitChar (b.toNat % 16)).toUpper.toNat) = some b := by
      rw [escaped, if_pos (by decide), hhigh.2.2, hlow.2.2]
      exact congrArg some (ofNat_nibbles b)
    rw [Text.hexByte, String.toList_ofList, map_cons, map_cons, map_cons, map_nil, cons_append,
      cons_append, cons_append, nil_append, decodeBytes, hescaped]

theorem decodeBytes_percentEncodeReturn (s : String) :
    decodeBytes (Text.bytes (percentEncodeReturn s)) = Text.bytes s := by
  have hascii : ∀ c ∈ (Text.bytes s).flatMap encodeByte, c.toNat < 128 := by
    intro c hc
    obtain ⟨b, -, hcb⟩ := mem_flatMap.mp hc
    exact (mem_encodeByte hcb).2
  rw [← String.ofList_toList (s := percentEncodeReturn s), toList_percentEncodeReturn,
    Text.bytes_ofList hascii]
  clear hascii
  induction Text.bytes s with
  | nil => rfl
  | cons b bs ih =>
    rw [flatMap_cons, map_append, decodeBytes_encodeByte, ih]

theorem mem_percentEncodeReturn {s : String} (h : c ∈ (percentEncodeReturn s).toList) :
    isUnreserved c = true ∨ c = '/' ∨ c = '%' := by
  rw [toList_percentEncodeReturn] at h
  obtain ⟨b, -, hcb⟩ := mem_flatMap.mp h
  exact (mem_encodeByte hcb).1

theorem queryParam_return (s : String) :
    queryParam ("return=" ++ percentEncodeReturn s) "return" = some s := by
  have hamp : '&' ∉ ("return=" ++ percentEncodeReturn s).toList := by
    rw [String.toList_append, mem_append]
    rintro (h | h)
    · exact absurd h (by decide)
    · exact absurd (mem_percentEncodeReturn h) (by decide)
  have hsplit := Text.split_intercalate (cons_ne_nil _ []) (forall_mem_singleton.mpr hamp)
  rw [String.intercalate_singleton] at hsplit
  have hpair : queryPair "return" ("return=" ++ percentEncodeReturn s) = some s := by
    rw [queryPair, Text.splitOnce_eq_some (k := "return") (String.toList_append) (by decide)]
    change (if "return" = "return" then _ else _) = _
    rw [if_pos rfl, percentDecode, decodeBytes_percentEncodeReturn, Text.fromUtf8Lossy_bytes]
  rw [queryParam, hsplit, findSome?_cons, hpair]

/-- **The target comes back** from the query of a login redirect, whatever the login path, and what
follows that and the separators is unreserved characters, slashes and percent signs. -/
theorem returnPath_buildLoginRedirect (loginPath returnTo : String)
    (h : isReturnPath returnTo = true) :
    ∃ encoded, buildLoginRedirect loginPath returnTo = loginPath ++ "?return=" ++ encoded ∧
      (∀ c ∈ encoded.toList, isUnreserved c = true ∨ c = '/' ∨ c = '%') ∧
      returnPath ("return=" ++ encoded) = returnTo ∧
      let target : Uri := ⟨none, none, some (loginPath, some ("return=" ++ encoded))⟩
      target.HasPath →
        Uri.ofPathAndQuery (buildLoginRedirect loginPath returnTo) = some target := by
  refine ⟨percentEncodeReturn returnTo, rfl, fun c ↦ mem_percentEncodeReturn, ?_, fun hpath ↦ ?_⟩
  · change validateReturnTo ((queryParam _ "return").getD "/") = _
    rw [queryParam_return]
    exact if_pos h
  · rw [← hpath.ofPathAndQuery, Uri.pathAndQueryStr, buildLoginRedirect]
    simp only [String.append_assoc]
    rfl

theorem returnPath_buildLoginRedirect_query : isReturnPath "/a?b=c" = true ∧
    ∃ encoded, buildLoginRedirect "/oidc/login" "/a?b=c" = "/oidc/login?return=" ++ encoded ∧
      returnPath ("return=" ++ encoded) = "/a?b=c" := by
  have h : isReturnPath "/a?b=c" = true := by decide
  obtain ⟨encoded, hurl, -, hreturn, -⟩ := returnPath_buildLoginRedirect "/oidc/login" "/a?b=c" h
  exact ⟨h, encoded, hurl, hreturn⟩

end Oidc

end Hypershunt
