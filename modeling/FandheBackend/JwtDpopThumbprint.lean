import FandheBackend.JwtDpopProof
import FandheBackend.JwtJwksLaw

set_option autoImplicit false

namespace FandheBackend.JwtDpopThumbprint
open StdBytes ExceptChecks JwtVerify JwtDpopProof JwtJwks

/-- What is relied on: base64 decodes only what it encodes, in its alphabet. -/
structure Faithful (x : Externals) : Prop where
  decode_iff : ∀ text bytes, x.decode text = some bytes ↔ text = x.encode bytes
  alphabet : ∀ bytes, ∀ b ∈ x.encode bytes, Base64Url.isDigit b = true

theorem append_cons_inj {α : Type} {c : α} {a a' t t' : List α} (ha : c ∉ a) (ha' : c ∉ a')
    (h : a ++ c :: t = a' ++ c :: t') : a = a' ∧ t = t' := by
  induction a generalizing a' with
  | nil =>
    cases a' with
    | nil => exact ⟨rfl, List.tail_eq_of_cons_eq h⟩
    | cons b _ =>
      obtain rfl : c = b := List.head_eq_of_cons_eq h
      exact absurd List.mem_cons_self ha'
  | cons b a ih =>
    cases a' with
    | nil =>
      obtain rfl : b = c := List.head_eq_of_cons_eq h
      exact absurd List.mem_cons_self ha
    | cons b' a' =>
      obtain ⟨hb, htail⟩ := List.cons_eq_cons.mp h
      obtain ⟨rfl, ht⟩ := ih (fun hm => ha (.tail _ hm)) (fun hm => ha' (.tail _ hm)) htail
      exact ⟨by rw [hb], ht⟩

section Canonical
variable {x : Externals}

def canonicalJson (x : Externals) : KeyMaterial → Bytes
  | .rsa n e => ascii "\x7b\"e\":\"" ++ x.encode e ++ ascii "\",\"kty\":\"RSA\",\"n\":\"" ++
      x.encode n ++ ascii "\"\x7d"
  | .ecP256 point => ascii "\x7b\"crv\":\"P-256\",\"kty\":\"EC\",\"x\":\"" ++
      x.encode ((point.drop 1).take 32) ++ ascii "\",\"y\":\"" ++ x.encode (point.drop 33) ++
      ascii "\"\x7d"

theorem rfc7638Thumbprint_eq (material : KeyMaterial) :
    rfc7638Thumbprint x material = thumbprintOf x (canonicalJson x material) := by
  cases material <;> rfl

/-- The hash tells the texts of the two keys apart. -/
def NoCollision (x : Externals) (m m' : KeyMaterial) : Prop :=
  x.sha256 (canonicalJson x m) = x.sha256 (canonicalJson x m') →
    canonicalJson x m = canonicalJson x m'

def WellFormed : KeyMaterial → Prop
  | .rsa _ _ => True
  | .ecP256 point => point.head? = some 4

namespace Faithful
variable (hx : Faithful x)
include hx

theorem encode_injective : Function.Injective x.encode := by
  intro a b hab
  have ha := (hx.decode_iff (x.encode a) a).mpr rfl
  have hb := (hx.decode_iff (x.encode a) b).mpr hab
  exact Option.some.inj (ha.symm.trans hb)

theorem quote_not_mem (bytes : Bytes) : 34 ∉ x.encode bytes := fun h =>
  absurd (hx.alphabet bytes 34 h) (by decide)

theorem quoted_inj {a b a' b' start mid stop : Bytes}
    (h : start ++ x.encode a ++ 34 :: mid ++ x.encode b ++ 34 :: stop =
      start ++ x.encode a' ++ 34 :: mid ++ x.encode b' ++ 34 :: stop) : a = a' ∧ b = b' := by
  simp only [List.append_assoc, List.cons_append] at h
  obtain ⟨ha, h⟩ := append_cons_inj (hx.quote_not_mem a) (hx.quote_not_mem a')
    (List.append_cancel_left h)
  obtain ⟨hb, -⟩ := append_cons_inj (hx.quote_not_mem b) (hx.quote_not_mem b')
    (List.append_cancel_left h)
  exact ⟨hx.encode_injective ha, hx.encode_injective hb⟩

theorem canonicalJson_inj {m m' : KeyMaterial} (hm : WellFormed m) (hm' : WellFormed m')
    (h : canonicalJson x m = canonicalJson x m') : m = m' := by
  -- The texts of two kinds of keys differ in their third byte.
  cases m with
  | rsa n e =>
    cases m' with
    | rsa n' e' =>
      obtain ⟨he, hn⟩ := hx.quoted_inj h
      rw [he, hn]
    | ecP256 point => exact absurd (congrArg (·[2]?) h) (by simp [canonicalJson, ascii])
  | ecP256 point =>
    cases m' with
    | rsa n e => exact absurd (congrArg (·[2]?) h) (by simp [canonicalJson, ascii])
    | ecP256 point' =>
      obtain ⟨rest, rfl⟩ := List.head?_eq_some_iff.mp hm
      obtain ⟨rest', rfl⟩ := List.head?_eq_some_iff.mp hm'
      obtain ⟨hpx, hpy⟩ := hx.quoted_inj h
      have hrest : rest = rest' := by
        rw [← List.take_append_drop 32 rest, ← List.take_append_drop 32 rest']
        exact congrArg₂ (· ++ ·) hpx hpy
      rw [hrest]

theorem rfc7638Thumbprint_inj {m m' : KeyMaterial} (hm : WellFormed m) (hm' : WellFormed m')
    (hash : NoCollision x m m') (h : rfc7638Thumbprint x m = rfc7638Thumbprint x m') : m = m' := by
  rw [rfc7638Thumbprint_eq, rfc7638Thumbprint_eq] at h
  exact hx.canonicalJson_inj hm hm' (hash (hx.encode_injective h))

end Faithful

end Canonical

section Readers
variable {x : Externals} {j : JwkFields}

theorem canonicalInt_eq_ok {s : Option Bytes} {min max : ℕ} {bytes : Bytes}
    (h : canonicalInt x s min max = .ok bytes) :
    ∃ text, s = some text ∧ text.length ≤ JwtDpopProof.encodedCap max ∧
      x.decode text = some bytes ∧ min ≤ bytes.length ∧ bytes.length ≤ max ∧
      bytes.head? ≠ some 0 := by
  unfold canonicalInt at h
  obtain ⟨text, hs, h⟩ := orError_bind_eq_ok.mp h
  obtain ⟨hcap, h⟩ := rejectIf_bind_eq_ok.mp h
  obtain ⟨bytes', hdecode, h⟩ := orError_bind_eq_ok.mp h
  obtain ⟨hbounds, h⟩ := rejectIf_bind_eq_ok.mp h
  cases h
  rw [not_or, not_or] at hbounds
  exact ⟨text, hs, Nat.le_of_not_lt hcap, hdecode, Nat.le_of_not_lt hbounds.1,
    Nat.le_of_not_lt hbounds.2.1, hbounds.2.2⟩

theorem decodeRsa_of_canonicalInt {s : Option Bytes} {min max : ℕ} {bytes : Bytes}
    (hmin : 0 < min) (h : canonicalInt x s min max = .ok bytes) :
    decodeRsa x s max = .ok bytes := by
  obtain ⟨text, rfl, hcap, hdecode, hlow, hhigh, hzero⟩ := canonicalInt_eq_ok h
  have hcap' : text.length ≤ JwtJwks.encodedCap max := hcap
  obtain ⟨b, rest, rfl⟩ := List.exists_cons_of_length_pos (Nat.lt_of_lt_of_le hmin hlow)
  have hb : (b == 0) = false := by
    rw [beq_eq_false_iff_ne]
    exact fun hb => hzero (congrArg some hb)
  have htrim : (b :: rest).dropWhile (· == 0) = b :: rest := List.dropWhile_cons_of_neg (by simp [hb])
  refine orError_bind_eq_ok.mpr ⟨text, rfl, rejectIf_bind_eq_ok.mpr ⟨by omega, ?_⟩⟩
  refine orError_bind_eq_ok.mpr ⟨b :: rest, hdecode, ?_⟩
  rw [htrim]
  refine rejectIf_bind_eq_ok.mpr ⟨List.cons_ne_nil b rest, ?_⟩
  exact rejectIf_bind_eq_ok.mpr ⟨Nat.not_lt_of_le hhigh, rfl⟩

theorem decodeCoord_of_fixedCoord {s : Option Bytes} {bytes : Bytes}
    (h : fixedCoord x s = .ok bytes) : decodeCoord x s = .ok bytes := by
  unfold fixedCoord at h
  obtain ⟨text, hs, h⟩ := orError_bind_eq_ok.mp h
  obtain ⟨hcap, h⟩ := rejectIf_bind_eq_ok.mp h
  obtain ⟨bytes', hdecode, h⟩ := orError_bind_eq_ok.mp h
  obtain ⟨hlength, h⟩ := rejectIf_bind_eq_ok.mp h
  cases h
  refine orError_bind_eq_ok.mpr ⟨text, hs, rejectIf_bind_eq_ok.mpr ⟨hcap, ?_⟩⟩
  exact orError_bind_eq_ok.mpr ⟨bytes, hdecode, rejectIf_bind_eq_ok.mpr ⟨hlength, rfl⟩⟩

def JwkIsPrivate (j : JwkFields) : Prop :=
  (j.d || j.p || j.q || j.dp || j.dq || j.qi || j.oth || j.k) = true

/-- The entry of a key set with the members of a JWK, a `kid` and an `alg`. -/
def entryOf (j : JwkFields) (kid : Bytes) (a : Algorithm) : RawJwk :=
  ⟨j.kty, some kid, some a.asJoseName, j.use, j.crv, j.n, j.e, j.x, j.y, j.d, j.p, j.q, j.dp, j.dq,
    j.qi, j.oth, j.k⟩

structure ProofJwk (x : Externals) (j : JwkFields) (a : Algorithm) (material : KeyMaterial) :
    Prop where
  notPrivate : ¬ JwkIsPrivate j
  kind : (j.kty = some (ascii "RSA") ∧ a = .rs256) ∨
    (j.kty = some (ascii "EC") ∧ j.crv = some (ascii "P-256") ∧ a = .es256)
  use : ∀ use, j.use = some use → use = ascii "sig"
  wellFormed : WellFormed material
  material : ∀ kid, keyMaterial x (entryOf j kid a) a = .ok material

theorem keyAlgorithm_eq_ok {kty : Bytes} {a : Algorithm} (h : keyAlgorithm kty = .ok a) :
    (kty = ascii "RSA" ∧ a = .rs256) ∨ (kty = ascii "EC" ∧ a = .es256) := by
  unfold keyAlgorithm at h
  split_ifs at h with hrsa hec
  · exact .inl ⟨hrsa, (Except.ok.inj h).symm⟩
  · exact .inr ⟨hec, (Except.ok.inj h).symm⟩

theorem buildProofKey_accepts {headerAlg : Option Algorithm} {key : ProofKey}
    (h : buildProofKey x j headerAlg = .ok key) :
    ∃ a, (∀ b, headerAlg = some b → b = a) ∧ ProofJwk x j a key.material := by
  unfold buildProofKey at h
  obtain ⟨hpublic, h⟩ := rejectIf_bind_eq_ok.mp h
  obtain ⟨kty, hkty, h⟩ := orError_bind_eq_ok.mp h
  obtain ⟨a, ha, h⟩ := bind_eq_ok.mp h
  obtain ⟨hheader, h⟩ := rejectIf_bind_eq_ok.mp h
  obtain ⟨-, h⟩ := rejectIf_bind_eq_ok.mp h
  obtain ⟨huse, h⟩ := rejectIf_bind_eq_ok.mp h
  refine ⟨a, fun b hb => by simpa [hb] using hheader, ?_⟩
  have huse' : ∀ use, j.use = some use → use = ascii "sig" := fun use hu => by
    simpa [hu] using huse
  rcases keyAlgorithm_eq_ok ha with ⟨rfl, rfl⟩ | ⟨rfl, rfl⟩
  · obtain ⟨n, hn, h⟩ := bind_eq_ok.mp h
    obtain ⟨e, he, h⟩ := bind_eq_ok.mp h
    cases h
    refine ⟨hpublic, .inl ⟨hkty, rfl⟩, huse', trivial, fun kid => ?_⟩
    refine bind_eq_ok.mpr ⟨n, decodeRsa_of_canonicalInt (by decide) hn, ?_⟩
    exact bind_eq_ok.mpr ⟨e, decodeRsa_of_canonicalInt (by decide) he, rfl⟩
  · obtain ⟨hcrv, h⟩ := rejectIf_bind_eq_ok.mp h
    obtain ⟨px, hpx, h⟩ := bind_eq_ok.mp h
    obtain ⟨py, hpy, h⟩ := bind_eq_ok.mp h
    cases h
    refine ⟨hpublic, .inr ⟨hkty, not_not.mp hcrv, rfl⟩, huse', rfl, fun kid => ?_⟩
    refine bind_eq_ok.mpr ⟨px, decodeCoord_of_fixedCoord hpx, ?_⟩
    exact bind_eq_ok.mpr ⟨py, decodeCoord_of_fixedCoord hpy, rfl⟩

theorem ProofJwk.clean {a : Algorithm} {material : KeyMaterial} (h : ProofJwk x j a material)
    (kid : Bytes) : ∃ kty, (entryOf j kid a).kty = some kty ∧ (entryOf j kid a).Clean kty := by
  rcases h.kind with ⟨hkty, rfl⟩ | ⟨hkty, hcrv, rfl⟩
  · refine ⟨_, hkty, by decide, ?_, h.notPrivate, ?_, ?_⟩
    · rintro _ ⟨⟩
      decide
    · rintro _ _ ⟨⟩ ⟨⟩
      decide
    · rintro _ _ ⟨⟩ hreq
      have hnone : requiredCrv Algorithm.rs256.asJoseName = none := by decide
      exact absurd (hnone.symm.trans hreq) (Option.some_ne_none _).symm
  · refine ⟨_, hkty, by decide, ?_, h.notPrivate, ?_, ?_⟩
    · rintro _ ⟨⟩
      decide
    · rintro _ _ ⟨⟩ ⟨⟩
      decide
    · rintro _ _ ⟨⟩ hreq -
      have hp256 : requiredCrv Algorithm.es256.asJoseName = some (ascii "P-256") := by decide
      exact hcrv.trans (hp256.symm.trans hreq)

theorem ProofJwk.classify_eq {a : Algorithm} {material : KeyMaterial}
    (h : ProofJwk x j a material) {kid : Bytes} (hkid : kid ≠ [] ∧ kid.length ≤ maxKidLen) :
    classify x (entryOf j kid a) = .ok (some ⟨kid, a, material⟩) :=
  classify_eq_some_iff.mpr
    ⟨h.clean kid, h.use, h.kind, rfl, ⟨rfl, hkid.1, hkid.2⟩, h.material kid⟩

end Readers

section Members
variable {members entry : List (Bytes × Json)} {j : JwkFields}

def withKidAndAlg (members : List (Bytes × Json)) (kid : Bytes) (a : Algorithm) :
    List (Bytes × Json) :=
  members.filter (fun m => m.1 ≠ ascii "kid" ∧ m.1 ≠ ascii "alg") ++
    [(ascii "kid", .string kid), (ascii "alg", .string a.asJoseName)]

theorem member_perm (h : entry.Perm members) (name : String) :
    member entry name = member members name := by
  have hperm := h.filter (fun m => m.1 = ascii name)
  unfold member
  generalize entry.filter (fun m => m.1 = ascii name) = found at hperm
  cases found with
  | nil => rw [hperm.nil_eq]
  | cons m found =>
    cases found with
    | nil => rw [hperm.singleton_eq]
    | cons m' found =>
      have hlength := hperm.length_eq
      generalize members.filter (fun m => m.1 = ascii name) = found' at hlength
      cases found' with
      | nil => cases hlength
      | cons _ found' =>
        cases found' with
        | nil => cases hlength
        | cons _ _ => rfl

theorem member_withKidAndAlg (kid : Bytes) (a : Algorithm) {name : String}
    (hkid : ascii name ≠ ascii "kid") (halg : ascii name ≠ ascii "alg") :
    member (withKidAndAlg members kid a) name = member members name := by
  have hkeep : (withKidAndAlg members kid a).filter (fun m => m.1 = ascii name) =
      members.filter (fun m => m.1 = ascii name) := by
    rw [withKidAndAlg, List.filter_append, List.filter_filter]
    have hnew : [(ascii "kid", Json.string kid), (ascii "alg", .string a.asJoseName)].filter
        (fun m => m.1 = ascii name) = [] := by
      simp [hkid.symm, halg.symm]
    rw [hnew, List.append_nil]
    refine List.filter_congr fun m _ => ?_
    by_cases hm : m.1 = ascii name
    · simp [hm, hkid, halg]
    · simp [hm]
  rw [member, hkeep, member]

/-- A member that was put in place of the old ones. -/
theorem member_new {kid : Bytes} {a : Algorithm} {name : String} {value : Json}
    (hreplaced : ascii name = ascii "kid" ∨ ascii name = ascii "alg")
    (hnew : [(ascii "kid", .string kid), (ascii "alg", .string a.asJoseName)].filter
      (fun m => m.1 = ascii name) = [(ascii name, value)]) :
    member (withKidAndAlg members kid a) name = some (some value) := by
  have hold : members.filter (fun m => decide (m.1 = ascii name) &&
      decide (m.1 ≠ ascii "kid" ∧ m.1 ≠ ascii "alg")) = [] := by
    refine List.filter_eq_nil_iff.mpr fun m _ => ?_
    rcases hreplaced with hname | hname <;> simp +contextual [hname]
  rw [member, withKidAndAlg, List.filter_append, List.filter_filter, hold, hnew]
  rfl

/-- The two readers find the same in the members that they share. -/
theorem ofJson_entry {kid : Bytes} {a : Algorithm}
    (hj : JwkFields.ofJson (.object members) = some j)
    (hentry : entry.Perm (withKidAndAlg members kid a)) :
    RawJwk.ofJson (.object entry) = some (entryOf j kid a) := by
  have hshared : ∀ name, ascii name ≠ ascii "kid" → ascii name ≠ ascii "alg" →
      member entry name = member members name := fun name hkid halg =>
    (member_perm hentry name).trans (member_withKidAndAlg kid a hkid halg)
  have hstring : ∀ name, ascii name ≠ ascii "kid" → ascii name ≠ ascii "alg" →
      stringMember entry name = stringMember members name := fun name hkid halg => by
    rw [stringMember, hshared name hkid halg, stringMember]
  have hpresent : ∀ name, ascii name ≠ ascii "kid" → ascii name ≠ ascii "alg" →
      present entry name = present members name := fun name hkid halg => by
    rw [present, hshared name hkid halg, present]
  have hkid : stringMember entry "kid" = some (some kid) := by
    rw [stringMember, member_perm hentry, member_new (.inl rfl) rfl]
    rfl
  have halg : stringMember entry "alg" = some (some a.asJoseName) := by
    rw [stringMember, member_perm hentry, member_new (.inr rfl) rfl]
    rfl
  unfold JwkFields.ofJson at hj
  obtain ⟨kty, hkty, hj⟩ := Option.bind_eq_some_iff.mp hj
  obtain ⟨_, -, hj⟩ := Option.bind_eq_some_iff.mp hj
  obtain ⟨use, huse, hj⟩ := Option.bind_eq_some_iff.mp hj
  obtain ⟨crv, hcrv, hj⟩ := Option.bind_eq_some_iff.mp hj
  obtain ⟨n, hn, hj⟩ := Option.bind_eq_some_iff.mp hj
  obtain ⟨e, he, hj⟩ := Option.bind_eq_some_iff.mp hj
  obtain ⟨x, hx, hj⟩ := Option.bind_eq_some_iff.mp hj
  obtain ⟨y, hy, hj⟩ := Option.bind_eq_some_iff.mp hj
  obtain ⟨d, hd, hj⟩ := Option.bind_eq_some_iff.mp hj
  obtain ⟨p, hp, hj⟩ := Option.bind_eq_some_iff.mp hj
  obtain ⟨q, hq, hj⟩ := Option.bind_eq_some_iff.mp hj
  obtain ⟨dp, hdp, hj⟩ := Option.bind_eq_some_iff.mp hj
  obtain ⟨dq, hdq, hj⟩ := Option.bind_eq_some_iff.mp hj
  obtain ⟨qi, hqi, hj⟩ := Option.bind_eq_some_iff.mp hj
  obtain ⟨oth, hoth, hj⟩ := Option.bind_eq_some_iff.mp hj
  obtain ⟨k, hk, hj⟩ := Option.bind_eq_some_iff.mp hj
  cases hj
  rw [RawJwk.ofJson, hstring "kty" (by decide) (by decide), hkid, halg,
    hstring "use" (by decide) (by decide), hstring "crv" (by decide) (by decide),
    hstring "n" (by decide) (by decide), hstring "e" (by decide) (by decide),
    hstring "x" (by decide) (by decide), hstring "y" (by decide) (by decide),
    hpresent "d" (by decide) (by decide), hpresent "p" (by decide) (by decide),
    hpresent "q" (by decide) (by decide), hpresent "dp" (by decide) (by decide),
    hpresent "dq" (by decide) (by decide), hpresent "qi" (by decide) (by decide),
    hpresent "oth" (by decide) (by decide), hpresent "k" (by decide) (by decide),
    hkty, huse, hcrv, hn, he, hx, hy, hd, hp, hq, hdp, hdq, hqi, hoth, hk]
  rfl

end Members

section Private
variable {members : List (Bytes × Json)} {name : String} {value : Json}

def privateMembers : List String := ["d", "p", "q", "dp", "dq", "qi", "oth", "k"]

theorem present_of_mem (hmem : (ascii name, value) ∈ members) {flag : Bool}
    (h : present members name = some flag) : flag = true := by
  have hfound : (ascii name, value) ∈ members.filter (fun m => m.1 = ascii name) :=
    List.mem_filter.mpr ⟨hmem, decide_eq_true rfl⟩
  unfold present member at h
  generalize members.filter (fun m => m.1 = ascii name) = found at hfound h
  cases found with
  | nil => cases hfound
  | cons m found =>
    cases found with
    | nil =>
      cases h
      rfl
    | cons _ _ => cases h

theorem private_of_mem (hname : name ∈ privateMembers) (hmem : (ascii name, value) ∈ members)
    {d p q dp dq qi oth k : Bool} (hd : present members "d" = some d)
    (hp : present members "p" = some p) (hq : present members "q" = some q)
    (hdp : present members "dp" = some dp) (hdq : present members "dq" = some dq)
    (hqi : present members "qi" = some qi) (hoth : present members "oth" = some oth)
    (hk : present members "k" = some k) :
    (d || p || q || dp || dq || qi || oth || k) = true := by
  simp only [privateMembers, List.mem_cons, List.not_mem_nil, or_false] at hname
  rcases hname with rfl | rfl | rfl | rfl | rfl | rfl | rfl | rfl
  · simp [present_of_mem hmem hd]
  · simp [present_of_mem hmem hp]
  · simp [present_of_mem hmem hq]
  · simp [present_of_mem hmem hdp]
  · simp [present_of_mem hmem hdq]
  · simp [present_of_mem hmem hqi]
  · simp [present_of_mem hmem hoth]
  · simp [present_of_mem hmem hk]

theorem jwkIsPrivate_of_mem {j : JwkFields} (hname : name ∈ privateMembers)
    (hmem : (ascii name, value) ∈ members) (hj : JwkFields.ofJson (.object members) = some j) :
    JwkIsPrivate j := by
  unfold JwkFields.ofJson at hj
  iterate 8 obtain ⟨_, -, hj⟩ := Option.bind_eq_some_iff.mp hj
  obtain ⟨d, hd, hj⟩ := Option.bind_eq_some_iff.mp hj
  obtain ⟨p, hp, hj⟩ := Option.bind_eq_some_iff.mp hj
  obtain ⟨q, hq, hj⟩ := Option.bind_eq_some_iff.mp hj
  obtain ⟨dp, hdp, hj⟩ := Option.bind_eq_some_iff.mp hj
  obtain ⟨dq, hdq, hj⟩ := Option.bind_eq_some_iff.mp hj
  obtain ⟨qi, hqi, hj⟩ := Option.bind_eq_some_iff.mp hj
  obtain ⟨oth, hoth, hj⟩ := Option.bind_eq_some_iff.mp hj
  obtain ⟨k, hk, hj⟩ := Option.bind_eq_some_iff.mp hj
  cases hj
  exact private_of_mem hname hmem hd hp hq hdp hdq hqi hoth hk

theorem rawIsPrivate_of_mem {raw : RawJwk} (hname : name ∈ privateMembers)
    (hmem : (ascii name, value) ∈ members) (hraw : RawJwk.ofJson (.object members) = some raw) :
    raw.IsPrivate := by
  unfold RawJwk.ofJson at hraw
  iterate 9 obtain ⟨_, -, hraw⟩ := Option.bind_eq_some_iff.mp hraw
  obtain ⟨d, hd, hraw⟩ := Option.bind_eq_some_iff.mp hraw
  obtain ⟨p, hp, hraw⟩ := Option.bind_eq_some_iff.mp hraw
  obtain ⟨q, hq, hraw⟩ := Option.bind_eq_some_iff.mp hraw
  obtain ⟨dp, hdp, hraw⟩ := Option.bind_eq_some_iff.mp hraw
  obtain ⟨dq, hdq, hraw⟩ := Option.bind_eq_some_iff.mp hraw
  obtain ⟨qi, hqi, hraw⟩ := Option.bind_eq_some_iff.mp hraw
  obtain ⟨oth, hoth, hraw⟩ := Option.bind_eq_some_iff.mp hraw
  obtain ⟨k, hk, hraw⟩ := Option.bind_eq_some_iff.mp hraw
  cases hraw
  exact private_of_mem hname hmem hd hp hq hdp hdq hqi hoth hk

end Private

theorem ProofJwk.materialFor {x : Externals} {j : JwkFields} {a : Algorithm}
    {material : KeyMaterial} (h : ProofJwk x j a material) : MaterialFor a material := by
  have hkid : ascii "k" ≠ [] ∧ (ascii "k").length ≤ maxKidLen := by decide
  exact (classify_eq_some_iff.mp (h.classify_eq hkid)).materialFor

/-- The thumbprint tells keys apart and nothing else. What a proof may carry is the same key in a
key set, under any `kid` and in any order of the members; neither reader takes a private key. -/
theorem thumbprint_identifies_key (x : Externals) :
    (∀ j j' headerAlg headerAlg' key key', Faithful x → buildProofKey x j headerAlg = .ok key →
      buildProofKey x j' headerAlg' = .ok key' → NoCollision x key.material key'.material →
      (key.thumbprint = key'.thumbprint ↔ key.material = key'.material)) ∧
    (∀ members j headerAlg key, JwkFields.ofJson (.object members) = some j →
      buildProofKey x j headerAlg = .ok key →
      ∃ a, MaterialFor a key.material ∧ (∀ b, headerAlg = some b → b = a) ∧
        ∀ kid entry, kid ≠ [] → kid.length ≤ maxKidLen →
          entry.Perm (withKidAndAlg members kid a) →
          ∃ raw, RawJwk.ofJson (.object entry) = some raw ∧
            classify x raw = .ok (some ⟨kid, a, key.material⟩)) ∧
    ∀ members name value, name ∈ privateMembers → (ascii name, value) ∈ members →
      (∀ j headerAlg key, JwkFields.ofJson (.object members) = some j →
        buildProofKey x j headerAlg ≠ .ok key) ∧
      ∀ raw r, RawJwk.ofJson (.object members) = some raw → classify x raw ≠ .ok r := by
  refine ⟨fun j j' headerAlg headerAlg' key key' hx hkey hkey' hash => ?_,
    fun members j headerAlg key hj hkey => ?_, fun members name value hname hmem => ⟨?_, ?_⟩⟩
  · obtain ⟨a, -, hjwk⟩ := buildProofKey_accepts hkey
    obtain ⟨a', -, hjwk'⟩ := buildProofKey_accepts hkey'
    rw [buildProofKey_eq_ok hkey, buildProofKey_eq_ok hkey']
    constructor
    · exact hx.rfc7638Thumbprint_inj hjwk.wellFormed hjwk'.wellFormed hash
    · exact congrArg (rfc7638Thumbprint x)
  · obtain ⟨a, hheader, hjwk⟩ := buildProofKey_accepts hkey
    refine ⟨a, hjwk.materialFor, hheader, fun kid entry hne hlength hentry => ?_⟩
    exact ⟨_, ofJson_entry hj hentry, hjwk.classify_eq ⟨hne, hlength⟩⟩
  · intro j headerAlg key hj hkey
    obtain ⟨a, -, hjwk⟩ := buildProofKey_accepts hkey
    exact hjwk.notPrivate (jwkIsPrivate_of_mem hname hmem hj)
  · intro raw r hraw hok
    obtain ⟨kty, -, hclean, -⟩ := classify_eq_ok_iff.mp hok
    exact hclean.notPrivate (rawIsPrivate_of_mem hname hmem hraw)

namespace SmallPoints

def zero : Bytes := List.replicate 43 65

def one : Bytes := List.replicate 42 65 ++ [69]

def canonicalText (y : Bytes) : Bytes :=
  ascii "\x7b\"crv\":\"P-256\",\"kty\":\"EC\",\"x\":\"" ++ zero ++ ascii "\",\"y\":\"" ++ y ++
    ascii "\"\x7d"

/-- SHA-256 on the texts of the two keys. -/
def sha256 (text : Bytes) : Bytes :=
  if text = canonicalText zero then
    [97, 254, 221, 196, 208, 56, 99, 108, 212, 169, 186, 141, 195, 103, 172, 192, 165, 172, 147,
      92, 11, 68, 111, 195, 24, 93, 239, 10, 219, 83, 217, 116]
  else if text = canonicalText one then
    [61, 11, 187, 160, 176, 233, 122, 126, 126, 99, 50, 4, 191, 230, 100, 149, 108, 38, 173, 64,
      172, 242, 237, 88, 146, 159, 255, 223, 53, 230, 104, 78]
  else []

def crates : Externals where
  encode := Base64Url.encode
  decode := Base64Url.decode
  sha256 := sha256
  rsaVerify := fun _ _ _ _ => false
  ecdsaVerify := fun _ _ _ => false
  json := fun _ => none

def members : List (Bytes × Json) :=
  [(ascii "kty", .string (ascii "EC")), (ascii "crv", .string (ascii "P-256")),
    (ascii "x", .string zero), (ascii "y", .string zero)]

def jwk (y : Bytes) : JwkFields :=
  ⟨some (ascii "EC"), none, none, some (ascii "P-256"), none, none, some zero, some y, false, false,
    false, false, false, false, false, false⟩

def material (y : UInt8) : KeyMaterial := .ecP256 (4 :: List.replicate 63 0 ++ [y])

theorem faithful_crates : Faithful crates where
  decode_iff := fun _ _ => Base64Url.decode_eq_some_iff
  alphabet := Base64Url.isDigit_encode

end SmallPoints

open SmallPoints in
/-- Two keys of proofs have two thumbprints, and the first is good as an entry of a key set. -/
theorem thumbprint_identifies_key_p256 :
    ∃ key key', buildProofKey crates (jwk zero) (some .es256) = .ok key ∧
      buildProofKey crates (jwk one) none = .ok key' ∧ key.thumbprint ≠ key'.thumbprint ∧
      ∃ raw, RawJwk.ofJson (.object (withKidAndAlg members (ascii "k1") .es256)) = some raw ∧
        classify crates raw = .ok (some ⟨ascii "k1", .es256, material 0⟩) := by
  have hzero : (buildProofKey crates (jwk zero) (some .es256)).toOption.map ProofKey.material =
      some (material 0) := by
    decide +kernel
  have hone : (buildProofKey crates (jwk one) none).toOption.map ProofKey.material =
      some (material 1) := by
    decide +kernel
  obtain ⟨key, hkey, hmaterial⟩ := Option.map_eq_some_iff.mp hzero
  obtain ⟨key', hkey', hmaterial'⟩ := Option.map_eq_some_iff.mp hone
  obtain ⟨hidentifies, hentries, -⟩ := thumbprint_identifies_key crates
  have hash : NoCollision crates key.material key'.material := by
    rw [hmaterial, hmaterial']
    exact fun h => absurd h (by decide +kernel)
  refine ⟨key, key', eq_ok_of_toOption hkey, eq_ok_of_toOption hkey', fun hsame => ?_, ?_⟩
  · have hmaterials := (hidentifies _ _ _ _ key key' faithful_crates (eq_ok_of_toOption hkey)
      (eq_ok_of_toOption hkey') hash).mp hsame
    rw [hmaterial, hmaterial'] at hmaterials
    exact absurd hmaterials (by decide)
  · obtain ⟨a, -, ha, hentry⟩ := hentries members (jwk zero) (some .es256) key rfl
      (eq_ok_of_toOption hkey)
    obtain rfl := ha .es256 rfl
    rw [← hmaterial]
    exact hentry (ascii "k1") _ (by decide) (by decide) (List.Perm.refl _)

end FandheBackend.JwtDpopThumbprint
