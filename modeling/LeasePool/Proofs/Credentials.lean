import Mathlib.Algebra.Group.Nat.Defs
import LeasePool.Pool.Acquisition

/-!
# What signatures are made of

The signature of a connection is the digest of its *credentials*: the address of the data source,
and the user and the password, if there are any. The sequence that is digested can be read in one
way only, from the front, as long as no part is so long that its length does not fit into eight
bytes. So two signatures are equal exactly where the credentials are, unless the digest has a
collision.

* `Credentials.eq_of_sequence_append`: a sequence and what follows it can be told apart;
* `Credentials.told_by_sequence`: sequences are equal, or one begins with the other, only for equal
  credentials, and signatures are equal only for these or by a collision;
* `ToldApart.eq_of_signature`: without a collision, a signature belongs to one choice of
  credentials only.
-/

namespace LeasePool

/-! ## Bytes -/

namespace Digest.Sha256

@[simp] theorem length_bigEndian (width n : Nat) : (bigEndian width n).length = width := by
  induction width with
  | zero => rfl
  | succ width ih =>
    change (_ :: bigEndian width n).length = width + 1
    rw [List.length_cons, ih]

/-- The bytes of a number tell what it is, as far as the width goes. -/
theorem mod_eq_of_bigEndian {width m n : Nat} (h : bigEndian width m = bigEndian width n) :
    m % 256 ^ width = n % 256 ^ width := by
  induction width with
  | zero => rw [Nat.pow_zero, Nat.mod_one, Nat.mod_one]
  | succ width ih =>
    change UInt8.ofNat (m / 256 ^ width) :: bigEndian width m =
      UInt8.ofNat (n / 256 ^ width) :: bigEndian width n at h
    injection h with first rest
    have digit : m / 256 ^ width % 256 = n / 256 ^ width % 256 := by
      simpa only [UInt8.toNat_ofNat'] using congrArg UInt8.toNat first
    rw [Nat.pow_succ, Nat.mod_mul, Nat.mod_mul, ih rest, digit]

theorem eq_of_bigEndian {width m n : Nat} (hm : m < 256 ^ width) (hn : n < 256 ^ width)
    (h : bigEndian width m = bigEndian width n) : m = n := by
  rw [← Nat.mod_eq_of_lt hm, mod_eq_of_bigEndian h, Nat.mod_eq_of_lt hn]

/-- Two different messages have the same digest. -/
def Collide (x y : List UInt8) : Prop := x ≠ y ∧ digest x = digest y

/-- Equal digests are those of equal messages, or a collision. -/
theorem digest_eq_iff {x y : List UInt8} : digest x = digest y ↔ x = y ∨ Collide x y := by
  refine ⟨fun h => ?_, ?_⟩
  · by_cases same : x = y
    · exact .inl same
    · exact .inr ⟨same, h⟩
  · rintro (rfl | collision)
    · rfl
    · exact collision.2

end Digest.Sha256

namespace Signature

open Digest.Sha256

/-- A part is so short that its length fits into eight bytes. -/
def Short : Option String → Prop
  | none => True
  | some s => s.utf8ByteSize < 2 ^ 64

instance : DecidablePred Short
  | none => .isTrue trivial
  | some s => inferInstanceAs (Decidable (s.utf8ByteSize < 2 ^ 64))

/-- It can be told where a part ends. -/
theorem eq_of_partBytes_append {a b : Option String} (ha : Short a) (hb : Short b)
    {x y : List UInt8} (h : partBytes a ++ x = partBytes b ++ y) : a = b ∧ x = y := by
  cases a with
  | none =>
    cases b with
    | none => exact ⟨rfl, (List.cons.inj h).2⟩
    | some t => cases (List.cons.inj h).1
  | some s =>
    cases b with
    | none => cases (List.cons.inj h).1
    | some t =>
      simp only [partBytes, List.cons_append, List.append_assoc] at h
      obtain ⟨widths, h⟩ := List.append_inj (List.cons.inj h).2 (by simp)
      have size : s.utf8ByteSize = t.utf8ByteSize := eq_of_bigEndian ha hb widths
      obtain ⟨bytes, rest⟩ := List.append_inj h size
      have same : s = t := String.toByteArray_inj.1 (ByteArray.ext (Array.toList_inj.1 bytes))
      exact ⟨congrArg some same, rest⟩

end Signature

/-- What the signature of a connection is made of. -/
structure Credentials where
  url : String
  username : Option String
  password : Option String
  deriving DecidableEq

namespace Credentials

/-- The bytes that are digested. -/
def sequence (c : Credentials) : List UInt8 := Signature.sequence c.url c.username c.password

/-- The signature of connections with some credentials. -/
def signature (c : Credentials) : Signature := Signature.of c.url c.username c.password

/-- Every part is so short that its length fits into eight bytes. -/
structure Short (c : Credentials) : Prop where
  url : Signature.Short (some c.url)
  username : Signature.Short c.username
  password : Signature.Short c.password

instance : DecidablePred Short := fun c =>
  decidable_of_iff (Signature.Short (some c.url) ∧ Signature.Short c.username ∧
    Signature.Short c.password)
    ⟨fun h => ⟨h.1, h.2.1, h.2.2⟩, fun h => ⟨h.url, h.username, h.password⟩⟩

/-- It can be told which credentials a sequence begins with, and where they end. -/
theorem eq_of_sequence_append {c d : Credentials} (hc : c.Short) (hd : d.Short) {x y : List UInt8}
    (h : c.sequence ++ x = d.sequence ++ y) : c = d ∧ x = y := by
  simp only [sequence, Signature.sequence, List.append_assoc] at h
  obtain ⟨url, h⟩ := Signature.eq_of_partBytes_append hc.url hd.url h
  obtain ⟨username, h⟩ := Signature.eq_of_partBytes_append hc.username hd.username h
  obtain ⟨password, rest⟩ := Signature.eq_of_partBytes_append hc.password hd.password h
  cases c
  cases d
  cases url
  cases username
  cases password
  exact ⟨rfl, rest⟩

theorem eq_of_sequence {c d : Credentials} (hc : c.Short) (hd : d.Short)
    (h : c.sequence = d.sequence) : c = d :=
  (eq_of_sequence_append hc hd (congrArg (· ++ []) h)).1

/-- No sequence begins with the sequence of other credentials. -/
theorem eq_of_sequence_isPrefix {c d : Credentials} (hc : c.Short) (hd : d.Short)
    (h : c.sequence <+: d.sequence) : c = d := by
  obtain ⟨rest, begins⟩ := h
  exact (eq_of_sequence_append hc hd (begins.trans (List.append_nil d.sequence).symm)).1

/-- Equal signatures are made of equal sequences, or by a collision of the digest. -/
theorem signature_eq_iff {c d : Credentials} : c.signature = d.signature ↔
    c.sequence = d.sequence ∨ Digest.Sha256.Collide c.sequence d.sequence := by
  have digests : c.signature = d.signature ↔
      Digest.Sha256.digest c.sequence = Digest.Sha256.digest d.sequence := by
    simp only [signature, Signature.of, Signature.mk.injEq, sequence]
  rw [digests, Digest.Sha256.digest_eq_iff]

/-- What is digested tells the credentials: the sequences of different credentials differ, and
    neither begins with the other. Signatures tell them too, unless the digest has a collision just
    there. -/
theorem told_by_sequence {c d : Credentials} (hc : c.Short) (hd : d.Short) :
    (c.sequence = d.sequence ↔ c = d) ∧
      (c ≠ d → ¬ c.sequence <+: d.sequence ∧ ¬ d.sequence <+: c.sequence) ∧
      (c.signature = d.signature ↔ c = d ∨ Digest.Sha256.Collide c.sequence d.sequence) := by
  have same : c.sequence = d.sequence ↔ c = d := ⟨eq_of_sequence hc hd, congrArg sequence⟩
  refine ⟨same, fun other => ⟨?_, ?_⟩, ?_⟩
  · exact fun h => other (eq_of_sequence_isPrefix hc hd h)
  · exact fun h => other (eq_of_sequence_isPrefix hd hc h).symm
  · rw [signature_eq_iff, same]

/-- An address that ends in the bytes of an empty user is still told from the user. -/
theorem told_by_sequence_of_imitation :
    let user : Credentials := ⟨"db", some "", none⟩
    let imitation : Credentials := ⟨"db\x01\x00\x00\x00\x00\x00\x00\x00\x00", none, none⟩
    user.Short ∧ imitation.Short ∧ user.sequence ≠ imitation.sequence ∧
      (¬ user.sequence <+: imitation.sequence ∧ ¬ imitation.sequence <+: user.sequence) ∧
      (user.signature = imitation.signature ↔
        Digest.Sha256.Collide user.sequence imitation.sequence) := by
  intro user imitation
  have hu : user.Short := ⟨by decide, by decide, by decide⟩
  have hi : imitation.Short := ⟨by decide, by decide, by decide⟩
  have other : user ≠ imitation := by decide
  obtain ⟨same, begins, signatures⟩ := told_by_sequence hu hi
  exact ⟨hu, hi, fun h => other (same.1 h), begins other, signatures.trans (or_iff_right other)⟩

end Credentials

/-- The digest tells some credentials apart: it has no collision on their sequences, and these are
    as the digest expects them. -/
structure ToldApart (cs : List Credentials) : Prop where
  short : ∀ c ∈ cs, c.Short
  collisionless : ∀ c ∈ cs, ∀ d ∈ cs,
    Digest.Sha256.digest c.sequence = Digest.Sha256.digest d.sequence → c.sequence = d.sequence

instance (cs : List Credentials) : Decidable (ToldApart cs) :=
  decidable_of_iff ((∀ c ∈ cs, c.Short) ∧ ∀ c ∈ cs, ∀ d ∈ cs,
    Digest.Sha256.digest c.sequence = Digest.Sha256.digest d.sequence → c.sequence = d.sequence)
    ⟨fun h => ⟨h.1, h.2⟩, fun h => ⟨h.short, h.collisionless⟩⟩

theorem ToldApart.mono {cs ds : List Credentials} (h : ToldApart cs) (sub : ds ⊆ cs) :
    ToldApart ds :=
  ⟨fun c hc => h.short c (sub hc), fun c hc d hd => h.collisionless c (sub hc) d (sub hd)⟩

/-- Credentials that are told apart have different signatures, unless they are the same. -/
theorem ToldApart.eq_of_signature {cs : List Credentials} (h : ToldApart cs) {c d : Credentials}
    (hc : c ∈ cs) (hd : d ∈ cs) (same : c.signature = d.signature) : c = d :=
  Credentials.eq_of_sequence (h.short c hc) (h.short d hd)
    (h.collisionless c hc d hd (congrArg Signature.bytes same))

/-- The credentials of a data source itself. -/
def DataSource.credentials (s : DataSource) : Credentials := ⟨s.url, s.username, s.password⟩

/-- The credentials of a user at a data source. -/
def Login.credentials (source : DataSource) : Login → Credentials
  | dataSource => source.credentials
  | .as username password => ⟨source.url, some username, some password⟩

theorem Acquisition.signature_eq_credentials (a : Acquisition) (source : DataSource) :
    a.signature source = (a.login.credentials source).signature := by
  unfold signature Login.credentials
  cases a.login <;> rfl

end LeasePool
