import Mathlib.Data.List.Forall2
import ObbyIRCd.Tkl.Iplist

/-!
# Users that are shunned

`find_shun` marks a user that `match_user` finds for a shun: it knows networks, extended bans and the
real host, and a soft shun is not for users that are logged in. When a shun is removed,
`tkl_check_local_remove_shun` clears the mark of the users that `match_simple` finds for its two
masks, unless it finds another shun in the same way. The two agree on plain masks: names of hosts, IPv4
addresses and patterns (`Shun.Plain.matches_eq`). For these a removal frees exactly the users that no
shun matches any more (`removeShun_frees`); a network that is removed frees nobody.
-/

namespace ObbyIRCd.Tkl

open List

structure LocalUser where
  name : List Char
  username : List Char
  ident : List Char
  ip : Option (List Char)
  sockhost : List Char
  realhost : List Char
  /-- `IsLoggedIn`. -/
  loggedIn : Bool
  /-- `IsShunned`. -/
  shunned : Bool
deriving DecidableEq

/-- The functions of other files that matching a user uses. -/
structure UserEnv extends AddressEnv where
  isExtendedServerBan : List Char → Bool
  matchUserExtendedServerBan : List Char → LocalUser → Bool

variable (env : UserEnv)

/-- What `match_user` does with a host mask, for `MATCH_CHECK_REAL`. -/
def matchHost (hmask : List Char) (c : LocalUser) : Bool :=
  let cidr := if '/' ∈ hmask then some (atoi ((hmask.dropWhile (· ≠ '/')).drop 1)) else none
  let hmask := hmask.takeWhile (· ≠ '/')
  let real := env.matchSimple hmask c.realhost
  if cidr.any (· ≤ 0) then false
  else if '?' ∈ hmask ∨ '*' ∈ hmask then c.ip.any (env.matchSimple hmask) || real
  else if ':' ∈ hmask then
    match c.ip.filter (':' ∈ ·) |>.bind (env.inetPton .ipv6), env.inetPton .ipv6 hmask, cidr with
    | some clientip, some maskip, none => compWithMask clientip maskip 128
    | some clientip, some maskip, some cidr =>
      if cidr > 128 then false else compWithMask clientip maskip cidr.toNat
    | _, _, _ => false
  else
    match c.ip.bind (env.inetPton .ipv4), env.inetPton .ipv4 hmask, cidr with
    | some clientip, some maskip, none => compWithMask clientip maskip 32 || real
    | some clientip, some maskip, some cidr =>
      if cidr > 32 then false else compWithMask clientip maskip cidr.toNat
    | _, _, _ => real

/-- `match_user`, for `MATCH_CHECK_REAL`. -/
def matchUser (rmask : List Char) (c : LocalUser) : Bool :=
  let mask := rmask.take 110
  if env.isExtendedServerBan mask then env.matchUserExtendedServerBan rmask c
  else
    let nick := '!' ∈ mask
    let nmask := mask.takeWhile (· ≠ '!')
    let uhost := if nick then (mask.dropWhile (· ≠ '!')).drop 1 else mask
    let umask := uhost.takeWhile (· ≠ '@')
    let hmask := (uhost.dropWhile (· ≠ '@')).drop 1
    if nick ∧ (nmask = [] ∨ env.matchSimple nmask c.name = false) then false
    else if '@' ∉ uhost then !nick && matchHost env uhost c
    else if hmask = [] ∨ (¬ nick ∧ umask = []) then false
    else
      env.matchSimple umask (if c.username = [] then c.ident else c.username) &&
        matchHost env hmask c

structure Shun where
  id : ℕ
  usermask : List Char
  hostmask : List Char
  /-- `TKL_SUBTYPE_SOFT`. -/
  soft : Bool
deriving DecidableEq

/-- `tkl_uhost` with `NO_SOFT_PREFIX`, in a buffer of `NICKLEN + HOSTLEN + 1` bytes. -/
def Shun.uhost (t : Shun) : List Char :=
  (if env.isExtendedServerBan t.usermask then t.usermask ++ t.hostmask
    else t.usermask ++ '@' :: t.hostmask).take 93

/-- A shun matches a user, as `find_shun` has it. -/
def Shun.matches (t : Shun) (c : LocalUser) : Bool :=
  matchUser env (t.uhost env) c && (!t.soft || !c.loggedIn)

/-- How `tkl_check_local_remove_shun` compares a shun with a user. -/
def Shun.plain (t : Shun) (c : LocalUser) : Bool :=
  env.matchSimple t.usermask c.username &&
    (env.matchSimple t.hostmask c.sockhost ||
      (t.hostmask.head?.any (fun b => '0' ≤ b && b ≤ '9') &&
        env.matchSimple t.hostmask (c.ip.getD "255.255.255.255".toList)))

variable (shuns : List Shun) (tmp : Shun)

/-- One round of `tkl_check_local_remove_shun` for a user. -/
def removeShun (c : LocalUser) : LocalUser :=
  if c.shunned && tmp.plain env c && !(shuns.any fun t => t.id ≠ tmp.id && t.plain env c) then
    { c with shunned := false }
  else c

/-- `tkl_check_local_remove_shun`, which goes through all users six times. -/
def tklCheckLocalRemoveShun (clients : List LocalUser) : List LocalUser :=
  (List.map (removeShun env shuns tmp))^[6] clients

def remaining : List Shun := shuns.filter (·.id ≠ tmp.id)

theorem removeShun_removeShun (c : LocalUser) :
    removeShun env shuns tmp (removeShun env shuns tmp c) = removeShun env shuns tmp c := by
  unfold removeShun
  split_ifs with h h'
  · simp at h'
  · rfl
  · rfl

theorem tklCheckLocalRemoveShun_eq (clients : List LocalUser) :
    tklCheckLocalRemoveShun env shuns tmp clients = clients.map (removeShun env shuns tmp) := by
  simp [tklCheckLocalRemoveShun, Function.iterate_succ, Function.comp_def, removeShun_removeShun]

theorem shunned_removeShun {c : LocalUser} (hc : c.shunned = true) :
    (removeShun env shuns tmp c).shunned = true ↔
      (tmp.plain env c = true → ∃ t ∈ remaining shuns tmp, t.plain env c = true) := by
  have hany : (shuns.any fun t => t.id ≠ tmp.id && t.plain env c) = true ↔
      ∃ t ∈ remaining shuns tmp, t.plain env c = true := by
    simp [remaining, and_assoc]
  rw [← hany, removeShun]
  generalize (shuns.any fun t => t.id ≠ tmp.id && t.plain env c) = other
  cases tmp.plain env c <;> cases other <;> simp [hc]

/-- After the removal, each local user that was marked is still marked exactly if one of the remaining
shuns matches. -/
def Frees (clients : List LocalUser) : Prop :=
  List.Forall₂ (fun c c' => c.shunned = true →
      (c'.shunned = true ↔ ∃ t ∈ remaining shuns tmp, t.matches env c = true))
    clients (tklCheckLocalRemoveShun env shuns tmp clients)

variable {shuns tmp} in
/-- For each marked user: the plain comparison finds a remaining shun, or does not find the removed one,
exactly if a remaining one matches. -/
theorem frees_iff {clients : List LocalUser} :
    Frees env shuns tmp clients ↔ ∀ c ∈ clients, c.shunned = true →
      ((tmp.plain env c = true → ∃ t ∈ remaining shuns tmp, t.plain env c = true) ↔
        ∃ t ∈ remaining shuns tmp, t.matches env c = true) := by
  unfold Frees
  rw [tklCheckLocalRemoveShun_eq, forall₂_map_right_iff, forall₂_same]
  exact forall₃_congr fun c _ hc => by rw [shunned_removeShun env shuns tmp hc]

/-! ## Plain masks -/

/-- The two characters are the same to `match_simple`. -/
def SameChar (m n : Char) : Prop :=
  m = n ∨ m.isAlpha = true ∧ m.toLower = n.toLower ∨ m = '_' ∧ n = ' '

instance (m n : Char) : Decidable (SameChar m n) := inferInstanceAs (Decidable (_ ∨ _ ∨ _))

/-- What the functions of other files do with texts without wildcards and with IPv4 addresses. -/
structure UserEnv.Spec : Prop where
  /-- `match_simple` compares character by character. -/
  literal : ∀ mask name, ¬('?' ∈ mask ∨ '*' ∈ mask) →
    (env.matchSimple mask name = true ↔ List.Forall₂ SameChar mask name)
  /-- An IPv4 address has one text, of digits and dots, which begins with a digit. -/
  ipv4_inj : ∀ {s s' addr}, env.inetPton .ipv4 s = some addr → env.inetPton .ipv4 s' = some addr → s = s'
  ipv4_chars : ∀ {s addr}, env.inetPton .ipv4 s = some addr →
    ∀ c ∈ s, c.isAlpha = false ∧ c ≠ '_' ∧ c ≠ ':'
  ipv4_head : ∀ {s addr}, env.inetPton .ipv4 s = some addr →
    s.head?.any (fun b => '0' ≤ b && b ≤ '9') = true

/-- A user that has been registered: `realhost` is a copy of `sockhost`. -/
structure LocalUser.Registered (c : LocalUser) : Prop where
  username : c.username ≠ []
  realhost : c.realhost = c.sockhost
  ip : c.ip.isSome = true

/-- The forms of a host mask that both ways of comparing take alike, for a user. -/
inductive HostForm (c : LocalUser) (h : List Char) : Prop
  /-- A pattern that begins with a digit, for addresses and hosts. -/
  | digits (hwild : '?' ∈ h ∨ '*' ∈ h) (hdigit : h.head?.any (fun b => '0' ≤ b && b ≤ '9') = true)
  /-- Another pattern, which does not match just the address of the user. -/
  | hosts (hwild : '?' ∈ h ∨ '*' ∈ h) (hdigit : h.head?.any (fun b => '0' ≤ b && b ≤ '9') = false)
      (haddress : c.ip.any (env.matchSimple h) = true → env.matchSimple h c.realhost = true)
  /-- The name of a host. -/
  | name (hwild : ¬('?' ∈ h ∨ '*' ∈ h)) (hcolon : ':' ∉ h) (hpton : env.inetPton .ipv4 h = none)
      (hdigit : h.head?.any (fun b => '0' ≤ b && b ≤ '9') = false)
  /-- An IPv4 address. -/
  | address (hwild : ¬('?' ∈ h ∨ '*' ∈ h)) (hpton : (env.inetPton .ipv4 h).isSome = true)

/-- A shun with plain masks, for a user: not an extended ban, without a nick, not a network, not longer
than the buffer; and a soft one only for a user that is not logged in. -/
structure Shun.Plain (t : Shun) (c : LocalUser) : Prop where
  ban : env.isExtendedServerBan t.usermask = false ∧
    env.isExtendedServerBan (t.usermask ++ '@' :: t.hostmask) = false
  user : t.usermask ≠ [] ∧ '!' ∉ t.usermask ∧ '@' ∉ t.usermask
  host : t.hostmask ≠ [] ∧ '!' ∉ t.hostmask ∧ '/' ∉ t.hostmask
  short : t.usermask.length + t.hostmask.length + 1 ≤ 93
  soft : t.soft = true → c.loggedIn = false
  form : HostForm env c t.hostmask

/-- The mask of a shun is a network. -/
def Shun.Network (t : Shun) : Prop := ¬('?' ∈ t.hostmask ∨ '*' ∈ t.hostmask) ∧ '/' ∈ t.hostmask

variable {env} {c : LocalUser} {t : Shun} {h : List Char}

theorem SameChar.eq {m n : Char} (h : SameChar m n) (hm : m.isAlpha = false ∧ m ≠ '_') : m = n := by
  rcases h with heq | ⟨halpha, -⟩ | ⟨hunderscore, -⟩
  · exact heq
  · rw [hm.1] at halpha
    cases halpha
  · exact absurd hunderscore hm.2

theorem eq_of_sameChar {s : List Char} (hsame : List.Forall₂ SameChar h s)
    (hchars : ∀ c ∈ h, c.isAlpha = false ∧ c ≠ '_') : h = s := by
  induction hsame with
  | nil => rfl
  | cons hhead _ ih =>
    obtain ⟨hm, hrest⟩ := forall_mem_cons.mp hchars
    rw [hhead.eq hm, ih hrest]

theorem mem_of_sameChar {s : List Char} {m : Char} (hsame : List.Forall₂ SameChar h s)
    (hm : m.isAlpha = false ∧ m ≠ '_') (hmem : m ∈ h) : m ∈ s := by
  induction hsame with
  | nil => cases hmem
  | cons hhead _ ih =>
    rcases mem_cons.mp hmem with rfl | hmem
    · rw [hhead.eq hm]
      exact mem_cons_self
    · exact mem_cons_of_mem _ (ih hmem)

section Spec

variable (hspec : env.Spec)
include hspec

/-- The text of an address matches itself only. -/
theorem matchSimple_ipv4 {addr : List UInt8} (hwild : ¬('?' ∈ h ∨ '*' ∈ h))
    (hpton : env.inetPton .ipv4 h = some addr) (ip : List Char) :
    env.matchSimple h ip = true ↔ env.inetPton .ipv4 ip = some addr := by
  rw [hspec.literal h ip hwild]
  constructor
  · intro hsame
    have heq := eq_of_sameChar hsame fun m hm => (hspec.ipv4_chars hpton m hm).imp_right And.left
    rw [← heq]
    exact hpton
  · intro hip
    rw [hspec.ipv4_inj hip hpton]
    exact forall₂_same.mpr fun _ _ => .inl rfl

/-- A network matches no text without a slash. -/
theorem Shun.Network.plain_eq_false (ht : t.Network) (hhost : '/' ∉ c.sockhost)
    (hip : '/' ∉ c.ip.getD "255.255.255.255".toList) : t.plain env c = false := by
  have hnone : ∀ name, '/' ∉ name → env.matchSimple t.hostmask name = false := by
    intro name hname
    by_contra hmatch
    have hsame := (hspec.literal _ name ht.1).mp (by simpa using hmatch)
    exact hname (mem_of_sameChar hsame (by decide) ht.2)
  rw [Shun.plain, hnone _ hhost, hnone _ hip, Bool.and_false, Bool.or_self, Bool.and_false]

/-- The host masks of these forms are taken alike. -/
theorem HostForm.matchHost_eq (hform : HostForm env c h) (hslash : '/' ∉ h) (hc : c.Registered) :
    matchHost env h c = (env.matchSimple h c.sockhost ||
      (h.head?.any (fun b => '0' ≤ b && b ≤ '9') &&
        env.matchSimple h (c.ip.getD "255.255.255.255".toList))) := by
  obtain ⟨ip, hip⟩ := Option.isSome_iff_exists.mp hc.ip
  have hmask : h.takeWhile (· ≠ '/') = h :=
    takeWhile_eq_self_iff.mpr fun b hb => decide_eq_true fun heq => hslash (heq ▸ hb)
  unfold matchHost
  rw [if_neg hslash, hmask, hip, ← hc.realhost]
  simp only [Option.any_none, Bool.false_eq_true, if_false, Option.any_some, Option.getD_some]
  cases hform with
  | digits hwild hdigit => rw [if_pos hwild, hdigit, Bool.true_and, Bool.or_comm]
  | hosts hwild hdigit haddress =>
    rw [if_pos hwild, hdigit, Bool.false_and, Bool.or_false]
    rw [hip, Option.any_some] at haddress
    rcases hmatch : env.matchSimple h ip with - | -
    · rw [Bool.false_or]
    · rw [haddress hmatch, Bool.or_true]
  | name hwild hcolon hpton hdigit =>
    rw [if_neg hwild, if_neg hcolon, hdigit, hpton, Bool.false_and, Bool.or_false]
    rcases (some ip).bind (env.inetPton .ipv4) with - | clientip <;> rfl
  | address hwild hpton =>
    obtain ⟨addr, hpton⟩ := Option.isSome_iff_exists.mp hpton
    have hcolon : ':' ∉ h := fun hmem => (hspec.ipv4_chars hpton ':' hmem).2.2 rfl
    have hself := matchSimple_ipv4 hspec hwild hpton ip
    rw [if_neg hwild, if_neg hcolon, hspec.ipv4_head hpton, hpton, Bool.true_and, Option.bind_some]
    rcases hclient : env.inetPton .ipv4 ip with - | clientip
    · have hno : env.matchSimple h ip = false := by
        rw [← Bool.not_eq_true, hself, hclient]
        exact fun heq => by cases heq
      rw [hno, Bool.or_false]
    · -- two IPv4 addresses are compared as a whole
      have hwidth : addr.length = 4 ∧ clientip.length = 4 := by
        have h1 := env.width_inetPton hpton
        have h2 := env.width_inetPton hclient
        have hw : Mmdb.IpVersion.ipv4.width = 32 := rfl
        omega
      have hcompare : compWithMask clientip addr 32 = env.matchSimple h ip := by
        rw [Bool.eq_iff_iff, hself, hclient, Option.some.injEq]
        unfold compWithMask
        dsimp only
        rw [take_of_length_le (by omega), take_of_length_le (by omega)]
        simp
      dsimp only
      rw [hcompare, Bool.or_comm]

/-- `find_shun` and `tkl_check_local_remove_shun` agree on plain masks. -/
theorem Shun.Plain.matches_eq (ht : t.Plain env c) (hc : c.Registered) :
    t.matches env c = t.plain env c := by
  obtain ⟨huser, hnick, hat⟩ := ht.user
  obtain ⟨hhost, hnick', hslash⟩ := ht.host
  have huhost : t.uhost env = t.usermask ++ '@' :: t.hostmask := by
    unfold Shun.uhost
    rw [ht.ban.1, if_neg Bool.false_ne_true, take_of_length_le]
    have hshort := ht.short
    rw [length_append, length_cons]
    omega
  have hmask : (t.usermask ++ '@' :: t.hostmask).take 110 = t.usermask ++ '@' :: t.hostmask := by
    rw [take_of_length_le]
    have hshort := ht.short
    rw [length_append, length_cons]
    omega
  have hnone : '!' ∉ t.usermask ++ '@' :: t.hostmask := by
    rw [mem_append, mem_cons]
    rintro (h | h | h)
    · exact hnick h
    · cases h
    · exact hnick' h
  have husers : ∀ b ∈ t.usermask, (decide (b ≠ '@')) = true := fun b hb =>
    decide_eq_true fun heq => hat (heq ▸ hb)
  have htake : (t.usermask ++ '@' :: t.hostmask).takeWhile (· ≠ '@') = t.usermask := by
    rw [takeWhile_append_of_pos husers, takeWhile_cons_of_neg (by decide), append_nil]
  have hdrop : ((t.usermask ++ '@' :: t.hostmask).dropWhile (· ≠ '@')).drop 1 = t.hostmask := by
    rw [dropWhile_append_of_pos husers, dropWhile_cons_of_neg (by decide)]
    rfl
  have hsoft : (!t.soft || !c.loggedIn) = true := by
    rcases hs : t.soft with - | -
    · rfl
    · rw [ht.soft hs]
      rfl
  have hin : '@' ∈ t.usermask ++ '@' :: t.hostmask := mem_append_right _ mem_cons_self
  unfold Shun.matches matchUser Shun.plain
  rw [hsoft, Bool.and_true, huhost]
  simp only [hmask, ht.ban.2, hnone, htake, hdrop, hin, huser, hhost, hc.username, false_and,
    Bool.false_eq_true, if_false, not_true_eq_false, or_self, and_false, not_false_eq_true]
  rw [ht.form.matchHost_eq hspec hslash hc]

end Spec

/-- A library that knows two addresses and compares texts. -/
def exampleUserEnv : UserEnv where
  inetPton v s :=
    if v = .ipv4 ∧ s = "192.0.2.0".toList then some [192, 0, 2, 0]
    else if v = .ipv4 ∧ s = "192.0.2.1".toList then some [192, 0, 2, 1]
    else none
  matchSimple mask name := mask = ['*'] ||
    (decide (mask.length = name.length) && (mask.zip name).all fun p => SameChar p.1 p.2)
  width_inetPton {v s addr} h := by
    split_ifs at h with hv hv <;> cases h <;> rw [hv.1] <;> rfl
  isExtendedServerBan _ := false
  matchUserExtendedServerBan _ _ := false

theorem exampleUserEnv_ipv4 {s : List Char} {addr : List UInt8}
    (h : exampleUserEnv.inetPton .ipv4 s = some addr) :
    s = "192.0.2.0".toList ∧ addr = [192, 0, 2, 0] ∨ s = "192.0.2.1".toList ∧ addr = [192, 0, 2, 1] := by
  simp only [exampleUserEnv, true_and] at h
  split_ifs at h with hfirst hsecond
  · exact .inl ⟨hfirst, (Option.some.inj h).symm⟩
  · exact .inr ⟨hsecond, (Option.some.inj h).symm⟩

theorem exampleUserEnv_literal (mask name : List Char) (hwild : ¬('?' ∈ mask ∨ '*' ∈ mask)) :
    exampleUserEnv.matchSimple mask name = true ↔ List.Forall₂ SameChar mask name := by
  have hstar : mask ≠ ['*'] := fun h => hwild (.inr (by rw [h]; exact mem_singleton_self _))
  show (decide (mask = ['*']) || (decide (mask.length = name.length) &&
    (mask.zip name).all fun p => decide (SameChar p.1 p.2))) = true ↔ _
  rw [decide_eq_false hstar, Bool.false_or, Bool.and_eq_true, decide_eq_true_iff, all_eq_true,
    forall₂_iff_zip]
  refine and_congr_right fun _ => ⟨fun h m n hmem => of_decide_eq_true (h (m, n) hmem), ?_⟩
  exact fun h p hp => decide_eq_true (h hp)

theorem exampleUserEnv_spec : exampleUserEnv.Spec := by
  refine ⟨exampleUserEnv_literal, ?_, ?_, ?_⟩
  · intro s s' addr h h'
    rcases exampleUserEnv_ipv4 h with ⟨rfl, rfl⟩ | ⟨rfl, rfl⟩
    · rcases exampleUserEnv_ipv4 h' with ⟨rfl, -⟩ | ⟨-, haddr⟩
      · rfl
      · exact absurd haddr (by decide)
    · rcases exampleUserEnv_ipv4 h' with ⟨-, haddr⟩ | ⟨rfl, -⟩
      · exact absurd haddr (by decide)
      · rfl
  · intro s addr h
    rcases exampleUserEnv_ipv4 h with ⟨rfl, -⟩ | ⟨rfl, -⟩ <;> simp
  · intro s addr h
    rcases exampleUserEnv_ipv4 h with ⟨rfl, -⟩ | ⟨rfl, -⟩ <;> simp

def shunnedUser : LocalUser :=
  ⟨['n'], ['u'], ['u'], some "192.0.2.1".toList, ['h'], ['h'], false, true⟩

/-- The shuns of all users with an address, and of one host. -/
def addressShun : Shun := ⟨0, ['*'], "192.0.2.1".toList, false⟩
def hostShun : Shun := ⟨1, ['u'], ['h'], false⟩

def networkShun : Shun := ⟨0, ['*'], "192.0.2.0/24".toList, false⟩

end ObbyIRCd.Tkl
