import Mathlib.Tactic.IntervalCases
import ObbyIRCd.Lib.Decimal
import ObbyIRCd.Mmdb.Format

/-!
# Lists of addresses

`unreal_match_iplist` of `src/modules/tkl.c` matches the address of a client against a list of masks
with wildcards, addresses and networks. Each entry stands for a set of addresses (`Covers`), and the
list for their union, in any order, unless an entry has a prefix length that is not positive: there
the function gives up on the rest of the list.
-/

namespace ObbyIRCd.Tkl

open List

open Mmdb (IpVersion addrBits byteBits)

/-- The functions of other files that matching an address uses. -/
structure AddressEnv where
  /-- `inet_pton`: the address in network byte order. -/
  inetPton : IpVersion → List Char → Option (List UInt8)
  matchSimple : List Char → List Char → Bool
  width_inetPton : ∀ {v s addr}, inetPton v s = some addr → 8 * addr.length = v.width

/-- `comp_with_mask`: whole bytes first, then the bits that are left. -/
def compWithMask (addr dest : List UInt8) (mask : ℕ) : Bool :=
  let n := mask / 8
  let m := 0xffff <<< (8 - mask % 8)
  addr.take n = dest.take n &&
    (mask % 8 = 0 || (addr.getD n 0).toNat &&& m = (dest.getD n 0).toNat &&& m)

/-- What a mask is taken for, and how the address of a client is read. -/
def family (ip : List Char) : IpVersion := if ':' ∈ ip then .ipv6 else .ipv4

/-- An entry of the list without its prefix length, and that number. -/
def splitCidr (name : List Char) : List Char × Option ℤ :=
  let mask := name.take 511
  if '/' ∈ mask then
    (mask.takeWhile (· ≠ '/'), some (atoi ((mask.dropWhile (· ≠ '/')).drop 1)))
  else (mask, none)

/-- The prefix length is zero, negative or not a number. -/
def BadCidr (name : List Char) : Prop := ∃ cidr ∈ (splitCidr name).2, cidr ≤ 0

variable (env : AddressEnv)

/-- The body of the loop behind the check of the prefix length; the branches for the two families
differ in the family only. -/
def matchEntry (ip : List Char) (clientip : List UInt8) (mask : List Char) (cidr : Option ℤ) :
    Bool :=
  if '*' ∈ mask ∨ '?' ∈ mask then env.matchSimple mask ip
  else if family ip ≠ family mask then false
  else match env.inetPton (family mask) mask, cidr with
    | none, _ => false
    | some maskip, none => compWithMask clientip maskip (family mask).width
    | some maskip, some cidr =>
      if cidr > (family mask).width then false else compWithMask clientip maskip cidr.toNat

/-- The loop of `unreal_match_iplist`. -/
def matchIplistLoop (ip : List Char) (clientip : List UInt8) : List (List Char) → Bool
  | [] => false
  | name :: l =>
    let (mask, cidr) := splitCidr name
    if cidr.any (· ≤ 0) then false
    else if matchEntry env ip clientip mask cidr then true
    else matchIplistLoop ip clientip l

/-- `unreal_match_iplist`. -/
def unrealMatchIplist (ip : Option (List Char)) (l : List (List Char)) : Bool :=
  match ip with
  | none => false
  | some ip => match env.inetPton (family ip) ip with
    | none => false
    | some clientip => matchIplistLoop env ip clientip l

/-- The set of addresses that an entry stands for: those that its wildcards match, or those of its
family that have the same first bits, all of them without a prefix length. -/
def Covers (ip : Option (List Char)) (name : List Char) : Prop :=
  ∃ text clientip, ip = some text ∧ env.inetPton (family text) text = some clientip ∧
    let (mask, cidr) := splitCidr name
    let bits := cidr.getD (family mask).width
    if '*' ∈ mask ∨ '?' ∈ mask then (∀ n ∈ cidr, 0 < n) ∧ env.matchSimple mask text = true
    else 0 < bits ∧ bits ≤ (family mask).width ∧ family text = family mask ∧
      ∃ maskip, env.inetPton (family mask) mask = some maskip ∧
        (addrBits clientip).take bits.toNat = (addrBits maskip).take bits.toNat

theorem and_mask_eq_iff {r : ℕ} (hr : r ≤ 8) (x y : UInt8) :
    x.toNat &&& 0xffff <<< (8 - r) = y.toNat &&& 0xffff <<< (8 - r) ↔
      (byteBits x).take r = (byteBits y).take r := by
  have htake : ∀ b : UInt8,
      (byteBits b).take r = (range r).map fun i => b.toNat.testBit (7 - i) := by
    intro b
    interval_cases r <;> rfl
  have hmask : ∀ i, (0xffff <<< (8 - r)).testBit i = decide (8 - r ≤ i ∧ i < 24 - r) := by
    intro i
    rw [Nat.testBit_shiftLeft, show 0xffff = 2 ^ 16 - 1 from rfl, Nat.testBit_two_pow_sub_one,
      Bool.decide_and]
    by_cases hi : 8 - r ≤ i
    · simp only [hi, decide_true, Bool.true_and]
      exact decide_eq_decide.mpr (by omega)
    · simp [hi]
  rw [htake, htake, map_inj_left]
  constructor
  · intro h i hi
    have hbit := congrArg (Nat.testBit · (7 - i)) h
    have hin : 8 - r ≤ 7 - i ∧ 7 - i < 24 - r := by rw [mem_range] at hi; omega
    simpa [Nat.testBit_and, hmask, hin] using hbit
  · intro h
    apply Nat.eq_of_testBit_eq
    intro i
    rw [Nat.testBit_and, Nat.testBit_and]
    by_cases hi : 8 - r ≤ i ∧ i < 8
    · rw [show i = 7 - (7 - i) by omega, h (7 - i) (mem_range.mpr (by omega))]
    · by_cases hlow : 8 - r ≤ i
      · have hlt : ∀ b : UInt8, b.toNat.testBit i = false := fun b =>
          Nat.testBit_lt_two_pow (b.toNat_lt.trans_le (Nat.pow_le_pow_right (by omega) (by omega)))
        rw [hlt, hlt]
      · simp [hlow]

theorem byteBits_inj {x y : UInt8} : byteBits x = byteBits y ↔ x = y := by
  refine ⟨fun h => ?_, congrArg byteBits⟩
  have hand := (and_mask_eq_iff (Nat.le_refl 8) x y).mpr (congrArg (take 8) h)
  have hself : ∀ b : UInt8, b.toNat &&& 0xffff = b.toNat := fun b =>
    (Nat.and_two_pow_sub_one_eq_mod _ 16).trans (Nat.mod_eq_of_lt (by have := b.toNat_lt; omega))
  exact UInt8.toNat_inj.mp (by simpa [hself] using hand)

/-- `comp_with_mask` compares exactly the first bits. -/
theorem compWithMask_iff {addr dest : List UInt8} (hlen : addr.length = dest.length) {mask : ℕ}
    (hmask : mask ≤ 8 * addr.length) :
    compWithMask addr dest mask = true ↔ (addrBits addr).take mask = (addrBits dest).take mask := by
  induction addr generalizing dest mask with
  | nil => cases dest <;> simp_all [compWithMask]
  | cons x addr ih =>
    obtain ⟨y, dest, rfl⟩ := exists_cons_of_length_eq_add_one hlen.symm
    have hcons : ∀ b l, (addrBits (b :: l)).take mask =
        (byteBits b).take mask ++ (addrBits l).take (mask - 8) := fun b l => take_append
    rw [hcons, hcons]
    rcases Nat.lt_or_ge mask 8 with h | h
    · simp only [show mask - 8 = 0 by omega, take_zero, append_nil]
      rcases Nat.eq_zero_or_pos mask with rfl | hpos
      · simp [compWithMask]
      · rw [← and_mask_eq_iff (by omega)]
        simp [compWithMask, Nat.div_eq_of_lt h, Nat.mod_eq_of_lt h, hpos.ne']
    · obtain ⟨k, rfl⟩ : ∃ k, mask = k + 8 := ⟨mask - 8, by omega⟩
      have hwhole : ∀ b, (byteBits b).take (k + 8) = byteBits b := fun b =>
        take_of_length_le h
      rw [hwhole, hwhole, Nat.add_sub_cancel]
      have hstep : compWithMask (x :: addr) (y :: dest) (k + 8) = true ↔
          x = y ∧ compWithMask addr dest k = true := by
        simp [compWithMask, and_assoc]
      rw [hstep, ih (by simpa using hlen) (by simp at hmask; omega), ← byteBits_inj]
      exact ⟨fun ⟨hx, hl⟩ => by rw [hx, hl], fun hl => append_inj hl rfl⟩

variable {env}

variable {name : List Char} {ip : Option (List Char)}

/-- An entry that the loop reaches is decided as its meaning says. -/
theorem matchEntry_iff {ip : List Char} {clientip : List UInt8}
    (hip : env.inetPton (family ip) ip = some clientip) :
    Covers env (some ip) name ↔ ¬ BadCidr name ∧
      matchEntry env ip clientip (splitCidr name).1 (splitCidr name).2 = true := by
  simp only [Covers, BadCidr, matchEntry, Option.some.injEq, exists_and_left, exists_eq_left', hip]
  rcases splitCidr name with ⟨mask, cidr⟩
  dsimp only
  split_ifs with hwild hfam
  · simp
  · simp [hfam]
  push Not at hfam
  have hwidth : 0 < (family mask).width := by cases family mask <;> decide
  cases hmask : env.inetPton (family mask) mask with
  | none => simp
  | some maskip =>
    have hclient := env.width_inetPton hip
    have hdest := env.width_inetPton hmask
    have hcomp : ∀ n ≤ (family mask).width, compWithMask clientip maskip n = true ↔
        (addrBits clientip).take n = (addrBits maskip).take n := by
      intro n hn
      rw [hfam] at hclient
      exact compWithMask_iff (by omega) (by omega)
    cases cidr with
    | none => simp [hcomp, hfam, hwidth]
    | some n =>
      by_cases hn : n ≤ (family mask).width
      · simp [hn, hcomp n.toNat (by omega), hfam]
      · simp [hn]

/-- The first entry decides, unless the function goes on to the others, which it does not after a bad
prefix length. -/
theorem unrealMatchIplist_cons (ip : Option (List Char)) (name : List Char) (l : List (List Char)) :
    unrealMatchIplist env ip (name :: l) = true ↔
      Covers env ip name ∨ ¬ BadCidr name ∧ unrealMatchIplist env ip l = true := by
  by_cases hclient : ∃ text clientip, ip = some text ∧
      env.inetPton (family text) text = some clientip
  · obtain ⟨text, clientip, rfl, hip⟩ := hclient
    have hbad : (splitCidr name).2.any (· ≤ 0) = true ↔ BadCidr name := by
      simp [BadCidr, Option.any_eq_true]
    simp only [matchEntry_iff hip, unrealMatchIplist, hip, matchIplistLoop, hbad]
    split_ifs <;> simp_all
  · have hnone : ∀ l, unrealMatchIplist env ip l = false := by
      intro l
      unfold unrealMatchIplist
      repeat' split
      all_goals simp_all
    have hcovers : ¬ Covers env ip name := fun ⟨text, clientip, htext, hip, _⟩ =>
      hclient ⟨text, clientip, htext, hip⟩
    simp [hnone, hcovers]

/-- No entry that covers a client has a bad prefix length. -/
theorem Covers.not_badCidr (h : Covers env ip name) : ¬ BadCidr name := by
  obtain ⟨text, clientip, rfl, hip, -⟩ := id h
  exact ((matchEntry_iff hip).mp h).1

theorem exists_covers {l : List (List Char)}
    (h : unrealMatchIplist env ip l = true) : ∃ name ∈ l, Covers env ip name := by
  induction l with
  | nil => cases ip <;> simp [unrealMatchIplist, matchIplistLoop] at h; split at h <;> cases h
  | cons name l ih =>
    rw [unrealMatchIplist_cons] at h
    grind

theorem unrealMatchIplist_of_covers {l : List (List Char)}
    (hgood : ∀ name ∈ l, ¬ BadCidr name) (hname : name ∈ l)
    (h : Covers env ip name) : unrealMatchIplist env ip l = true := by
  induction l with
  | nil => cases hname
  | cons first l ih =>
    rw [forall_mem_cons] at hgood
    rw [unrealMatchIplist_cons]
    rcases mem_cons.mp hname with rfl | hname
    · exact .inl h
    · exact .inr ⟨hgood.1, ih hgood.2 hname⟩

/-- The function decides a single entry as its meaning says, for every client. It decides a list as
the union of its entries, and in every order alike, exactly if no entry has a bad prefix length or
no entry covers the client. -/
theorem unrealMatchIplist_iff (env : AddressEnv) (ip : Option (List Char)) (l : List (List Char)) :
    (∀ name, unrealMatchIplist env ip [name] = true ↔ Covers env ip name) ∧
    (((unrealMatchIplist env ip l = true ↔ ∃ name ∈ l, Covers env ip name) ∧
        ∀ l', l'.Perm l → unrealMatchIplist env ip l' = unrealMatchIplist env ip l) ↔
      (∀ name ∈ l, ¬ BadCidr name) ∨ ∀ name ∈ l, ¬ Covers env ip name) := by
  have hsingle : ∀ name, unrealMatchIplist env ip [name] = true ↔ Covers env ip name := by
    intro name
    refine ⟨fun h => by simpa using exists_covers h, fun h => ?_⟩
    exact (unrealMatchIplist_cons ip name []).mpr (.inl h)
  refine ⟨hsingle, fun ⟨hunion, horder⟩ => ?_, fun h => ?_⟩
  · -- with the bad entry in front, the one that covers the client is not reached
    by_contra! hboth
    obtain ⟨⟨bad, hbad, hcidr⟩, name, hname, hcovers⟩ := hboth
    have hfirst := horder _ (perm_cons_erase hbad).symm
    rw [hunion.mpr ⟨name, hname, hcovers⟩, unrealMatchIplist_cons] at hfirst
    exact hfirst.elim (fun h => h.not_badCidr hcidr) fun h => h.1 hcidr
  · have heq : ∀ l', l'.Perm l →
        (unrealMatchIplist env ip l' = true ↔ ∃ name ∈ l, Covers env ip name) := by
      intro l' hperm
      have hexists : (∃ name ∈ l', Covers env ip name) ↔ ∃ name ∈ l, Covers env ip name := by
        simp only [hperm.mem_iff]
      rw [← hexists]
      refine ⟨exists_covers, fun ⟨name, hname, hcovers⟩ => ?_⟩
      rcases h with hgood | hnone
      · exact unrealMatchIplist_of_covers (fun n hn => hgood n (hperm.mem_iff.mp hn)) hname hcovers
      · exact absurd hcovers (hnone name (hperm.mem_iff.mp hname))
    exact ⟨heq l (.refl l), fun l' hperm => Bool.eq_iff_iff.mpr ((heq l' hperm).trans
      (heq l (.refl l)).symm)⟩

def exampleAddressEnv : AddressEnv where
  inetPton v s := if v = .ipv4 ∧ s = "192.0.2.1".toList then some [192, 0, 2, 1] else none
  matchSimple mask name := mask = name
  width_inetPton {v s addr} h := by
    split_ifs at h with hv
    obtain rfl := Option.some.inj h
    rw [hv.1]
    rfl

/-- The address of the client is in the list, and the list does not match, because of the entry in
front of it. -/
theorem unrealMatchIplist_bad_cidr :
    unrealMatchIplist exampleAddressEnv (some "192.0.2.1".toList) ["192.0.2.1".toList] = true ∧
      unrealMatchIplist exampleAddressEnv (some "192.0.2.1".toList)
        ["10.0.0.0/0".toList, "192.0.2.1".toList] = false := by
  decide +kernel

end ObbyIRCd.Tkl
