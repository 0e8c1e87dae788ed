import LeanCd.Calm

/-!
# `LeanCd.Proofs.HolderNames`: the identities of the processes

`holder_identity` is the name under which a process holds the Lease: a base, usually the Pod
name, and the process id. An identity has at most 63 bytes, and a long base loses its last
characters. These are the ones in which the Pods of one Deployment differ.

`identities_differ_iff` says when two processes have different identities. `podNames_collide`
is a pair that has not: `renew` takes the Lease of the one for that of the other.

Identities are compared as texts. The process id comes last, behind a colon, and its digits hold
none. So two identities are equal when the ids are and the bases are cut to the same text, and the
proof is about where the cut falls.
-/

set_option autoImplicit false

namespace LeanCd.Lock

open Text

/-- The loop ends at the last boundary, and cuts to the characters that fit. -/
theorem takeBytes_lastBoundary (cs : List Char) (n : Nat) :
    takeBytes (lastBoundary cs n) cs = takeBytes n cs := by
  induction n with
  | zero => rfl
  | succ n ih =>
      unfold lastBoundary
      split
      next => rfl
      next hinside =>
        have hne : byteLen (takeBytes (n + 1) cs) ≠ n + 1 := by simpa [isCharBoundary] using hinside
        have hle := byteLen_takeBytes_le (n + 1) cs
        rw [ih]
        exact takeBytes_eq_of_le (Nat.le_succ n) (by omega)

/-- A truncated text consists of the characters that fit. -/
theorem toList_truncateCharBoundary (s : String) (n : Nat) :
    (truncateCharBoundary s n).toList = takeBytes n s.toList := by
  unfold truncateCharBoundary
  split
  next hfits => rw [takeBytes_of_le hfits]
  next => rw [String.toList_ofList, takeBytes_lastBoundary]

/-- The digits of a process id. -/
def pidDigits (pid : UInt32) : List Char := Nat.toDigits 10 pid.toNat

/-- Process ids with the same digits are the same. -/
theorem pidDigits_injective {pid pid' : UInt32} (h : pidDigits pid = pidDigits pid') :
    pid = pid' := by
  have hvalue := congrArg (Nat.ofDigitChars 10 · 0) h
  simp only [pidDigits, Nat.ofDigitChars_ten_toDigits] at hvalue
  exact UInt32.toNat_inj.mp hvalue

/-- The digits of a process id hold no colon, so the last colon of an identity is the separator. -/
theorem colon_notMem_pidDigits (pid : UInt32) : ':' ∉ pidDigits pid := by
  intro h
  have hdigit := Nat.isDigit_of_mem_toDigits (by decide) (by decide) h
  exact absurd hdigit (by decide)

/-- At most ten digits. -/
theorem byteLen_pidDigits_le (pid : UInt32) : byteLen (pidDigits pid) ≤ 40 := by
  have hten : (pidDigits pid).length ≤ 10 :=
    (Nat.length_toDigits_le_iff (by decide) (by decide)).mpr (by
      have h := pid.toNat_lt
      omega)
  have h := byteLen_le_four_mul (pidDigits pid)
  omega

/-- The bytes of an identity that are left for the base. -/
def room (pid : UInt32) : Nat := 63 - byteLen (':' :: pidDigits pid)

/-- The characters of an identity. -/
theorem toList_holderIdentity {base : String} (hbase : base ≠ "") (pid : UInt32) :
    (holderIdentity base pid).toList =
      takeBytes (room pid) base.toList ++ ':' :: pidDigits pid := by
  simp only [holderIdentity, if_neg hbase, String.toList_append, toList_truncateCharBoundary]
  simp [room, pidDigits]

/-- A text behind the last colon is shorter than one with a colon in it. -/
theorem eq_of_append_colon {a x d d' : List Char} (hd : ':' ∉ d)
    (h : a ++ x ++ ':' :: d' = a ++ ':' :: d) : x = [] ∧ d' = d := by
  rw [List.append_assoc, List.append_cancel_left_eq] at h
  cases x with
  | nil => exact ⟨rfl, (List.cons.inj h).2⟩
  | cons c x =>
      have htail : x ++ ':' :: d' = d := (List.cons.inj h).2
      exact absurd (htail ▸ List.mem_append_right x (List.mem_cons_self ..)) hd

/-- The last colon separates the base from the process id. -/
theorem append_colon_inj {a a' d d' : List Char} (hd : ':' ∉ d) (hd' : ':' ∉ d') :
    a ++ ':' :: d = a' ++ ':' :: d' ↔ a = a' ∧ d = d' := by
  constructor
  · intro h
    rcases List.append_eq_append_iff.mp h with ⟨x, ha, -⟩ | ⟨x, ha, -⟩
    · rw [ha] at h
      obtain ⟨hx, hdd⟩ := eq_of_append_colon hd h.symm
      rw [hx, List.append_nil] at ha
      exact ⟨ha.symm, hdd.symm⟩
    · rw [ha] at h
      obtain ⟨hx, hdd⟩ := eq_of_append_colon hd' h
      rw [hx, List.append_nil] at ha
      exact ⟨ha, hdd⟩
  · rintro ⟨rfl, rfl⟩
    rfl

/-- Two identities are equal when the process ids are, and the bases as far as they fit. -/
theorem holderIdentity_eq_iff {base base' : String} (hbase : base ≠ "") (hbase' : base' ≠ "")
    (pid pid' : UInt32) :
    holderIdentity base pid = holderIdentity base' pid' ↔
      pid = pid' ∧ takeBytes (room pid) base.toList = takeBytes (room pid') base'.toList := by
  rw [← String.toList_inj, toList_holderIdentity hbase, toList_holderIdentity hbase',
    append_colon_inj (colon_notMem_pidDigits pid) (colon_notMem_pidDigits pid'), and_comm]
  constructor
  · rintro ⟨hpid, hcut⟩
    exact ⟨pidDigits_injective hpid, hcut⟩
  · rintro ⟨rfl, hcut⟩
    exact ⟨rfl, hcut⟩

/-- An identity fits into 63 bytes. -/
theorem byteLen_holderIdentity_le {base : String} (hbase : base ≠ "") (pid : UInt32) :
    byteLen (holderIdentity base pid).toList ≤ 63 := by
  have hcut := byteLen_takeBytes_le (room pid) base.toList
  have hdigits := byteLen_pidDigits_le pid
  have hcolon : Char.utf8Size ':' = 1 := by decide
  have hroom : room pid = 63 - (1 + byteLen (pidDigits pid)) := by
    rw [room, byteLen_cons, hcolon]
  rw [toList_holderIdentity hbase, byteLen_append, byteLen_cons, hcolon]
  omega

/-- The identities of two processes are different, and each fits into 63 bytes, exactly when
the process ids differ or the bases differ in the characters that fit next to the id. -/
theorem identities_differ_iff (base base' : String) (hbase : base ≠ "") (hbase' : base' ≠ "")
    (pid pid' : UInt32) :
    (holderIdentity base pid ≠ holderIdentity base' pid' ∧
        byteLen (holderIdentity base pid).toList ≤ 63 ∧
        byteLen (holderIdentity base' pid').toList ≤ 63) ↔
      (pid ≠ pid' ∨ takeBytes (room pid) base.toList ≠ takeBytes (room pid') base'.toList) := by
  have hlen := byteLen_holderIdentity_le hbase pid
  have hlen' := byteLen_holderIdentity_le hbase' pid'
  rw [and_iff_left ⟨hlen, hlen'⟩, ne_eq, holderIdentity_eq_iff hbase hbase', not_and_or]

/-- The name of a Pod of a Deployment, with its random suffix. -/
def podName (suffix : String) : String :=
  "leancd-of-the-platform-engineering-team-europe-7d9f8b6c5d-" ++ suffix

/-- Two processes in short-named Pods. -/
theorem identities_differ_short :
    (holderIdentity "leancd-x7kq2" 1 ≠ holderIdentity "leancd-x7kzz" 1 ∧
        byteLen (holderIdentity "leancd-x7kq2" 1).toList ≤ 63 ∧
        byteLen (holderIdentity "leancd-x7kzz" 1).toList ≤ 63) ↔
      ((1 : UInt32) ≠ 1 ∨
        takeBytes (room 1) "leancd-x7kq2".toList ≠ takeBytes (room 1) "leancd-x7kzz".toList) :=
  identities_differ_iff _ _ (by decide) (by decide) 1 1

/-- The Lease of the process in the first Pod. -/
def heldByFirst : World .namespacedOnly :=
  { World.fresh ∅ none with
    lease := some (buildLease (holderIdentity (podName "x7kq2") 1) 60 0 0), nextRv := 1 }

/-- Two Pod names of 63 bytes that differ in the last two. The identities are equal, and the
process in the second Pod renews the Lease of the process in the first. -/
theorem podNames_collide :
    (podName "x7kq2", (1 : UInt32)) ≠ (podName "x7kzz", 1) ∧
      byteLen (podName "x7kq2").toList = 63 ∧ byteLen (podName "x7kzz").toList = 63 ∧
      holderIdentity (podName "x7kq2") 1 = holderIdentity (podName "x7kzz") 1 ∧
      Act.value (renew (Env.idle .namespacedOnly) settingsCfg
        ⟨holderIdentity (holderBase (some (podName "x7kzz")) none) 1⟩ heldByFirst) = .ok true :=
  ⟨by decide, by decide, by decide, by decide +kernel, by decide +kernel⟩

end LeanCd.Lock
