import Mathlib.Data.Char
import Mathlib.Data.List.Induction
import Mathlib.Logic.Function.Basic
import Mathlib.Order.MinMax
import ObbyIRCd.Lib.Decimal
import ObbyIRCd.Lib.Bytes

/-!
# The parameter of channel mode +f

The handlers of `chanmodes/floodprot.c`. The parameter gives for each type of flood a limit, the mode
to set and the minutes after which it is removed, and one period for all of them. A setting that is
stored is read back from its text (`parseChannelModeFlood_string`), item by item in the order of
`floodtypes`. `compare_floodprot_modes` does not look at the period.
-/

namespace ObbyIRCd.Chanmode

open List
open Function (update update_of_ne)

/-- `Flood`. -/
inductive Flood
  | ctcp | join | knock | msg | nick | text | repeating | paste
deriving DecidableEq, Repr

/-- A row of `floodtypes`. The character 0 stands for no action. -/
structure FloodType where
  letter : Char
  index : Flood
  defaultAction : Char
  actions : List Char
  timedbanRequired : Bool
deriving DecidableEq

def floodtypes : List FloodType :=
  [⟨'c', .ctcp, 'C', [], false⟩, ⟨'j', .join, 'i', ['R'], false⟩, ⟨'k', .knock, 'K', [], false⟩,
    ⟨'m', .msg, 'm', ['M'], false⟩, ⟨'n', .nick, 'N', [], false⟩,
    ⟨'p', .paste, '\x00', ['m', 'M'], false⟩, ⟨'t', .text, '\x00', ['b', 'd'], true⟩,
    ⟨'r', .repeating, '\x00', ['b', 'd'], true⟩]

/-- `find_floodprot_by_letter`. -/
def findFloodprotByLetter (c : Char) : Option FloodType := floodtypes.find? fun f => f.letter = c

/-- The settings of `ChannelFloodProtection`, without timers and counters. -/
structure ChannelFloodProtection where
  per : ℕ
  limit : Flood → ℕ
  action : Flood → Char
  removeAfter : Flood → ℕ

/-- What the configuration says about +f. -/
structure FloodConfig where
  /-- `modef_default_unsettime`. -/
  defaultUnsettime : ℕ
  /-- `modef_max_unsettime`. -/
  maxUnsettime : ℕ
  /-- `timedban_available`. -/
  timedbanAvailable : Bool

/-! ## Reading -/

/-- `strtok` at commas: each token with what follows its comma, if there is one. -/
def commaTokens (token : List Char) : List Char → List (List Char × Option (List Char))
  | [] => if token = [] then [] else [(token, none)]
  | c :: text =>
    if c = ',' then
      if token = [] then commaTokens [] text else (token, some text) :: commaTokens [] text
    else commaTokens (token ++ [c]) text

variable (cfg : FloodConfig)

def unsetTime (strict localclient : Bool) (text : List Char) : ℕ :=
  let tv := min (atoi text).toNat 255
  if strict && localclient then min tv cfg.maxUnsettime else tv

/-- The action and the minutes that follow the letter of an item. -/
def floodAction (strict localclient : Bool) (after : Option (List Char))
    (text : List Char) : Char × ℕ :=
  let unset := if localclient then cfg.defaultUnsettime else 0
  match text with
  | [] => ('\x00', unset)
  | c :: text =>
    if c ≠ '#' then ('\x00', unset)
    else
      match text with
      | a :: text => (a, if text = [] then unset else unsetTime cfg strict localclient text)
      -- without an action the pointer moves past the end of the item
      | [] => ('\x00', match after with
        | none => 0
        | some text => if text = [] then unset else unsetTime cfg strict localclient text)

/-- `floodprot_valid_alternate_action`. No channel mode of the server has a `flood_type_action`. -/
def floodprotValidAlternateAction (action : Char) (f : FloodType) : Bool := f.actions.contains action

def ChannelFloodProtection.set (fld : ChannelFloodProtection) (cfg : FloodConfig) (f : FloodType)
    (v : ℕ) (a : Char) (r : ℕ) : ChannelFloodProtection :=
  { fld with
    limit := update fld.limit f.index v
    action := update fld.action f.index
      (if a ≠ '\x00' ∧ floodprotValidAlternateAction a f then a else f.defaultAction)
    removeAfter :=
      if f.timedbanRequired = false ∨ cfg.timedbanAvailable then
        update fld.removeAfter f.index r
      else fld.removeAfter }

/-- One item of the list: `none` if it is refused. -/
def parseFloodItem (strict localclient : Bool) (fld : ChannelFloodProtection)
    (item : List Char × Option (List Char)) : Option ChannelFloodProtection :=
  match item.1.dropWhile Char.isDigit with
  | [] => some fld
  | c :: text =>
    match findFloodprotByLetter c with
    | none => some fld
    | some f =>
      let v := atoi (item.1.takeWhile Char.isDigit)
      if strict ∧ (v < 1 ∨ 999 < v) then none
      else
        let (a, r) := floodAction cfg strict localclient item.2 text
        some (fld.set cfg f (max 1 (min v 999)).toNat a r)

def ChannelFloodProtection.zero (per : ℕ) : ChannelFloodProtection :=
  ⟨per, fun _ => 0, fun _ => '\x00', fun _ => 0⟩

/-- `parse_channel_mode_flood`, for settings with period `per`: whether it succeeds, and the settings
it leaves. -/
def parseChannelModeFlood (strict localclient : Bool) (per : ℕ)
    (param : List Char) : Bool × ChannelFloodProtection :=
  match param.take 255 with
  | [] => (false, .zero per)
  | c :: xbuf =>
    -- the period follows the bracket and a colon
    let period := (xbuf.dropWhile (· ≠ ']')).drop 1
    if c ≠ '[' ∨ ']' ∉ xbuf ∨ period.head? ≠ some ':' then (false, .zero per)
    else
      match (commaTokens [] (xbuf.takeWhile (· ≠ ']'))).foldlM (parseFloodItem cfg strict localclient)
          (ChannelFloodProtection.zero per) with
      | none => (false, .zero per)
      | some fld =>
        if period.drop 1 = [] then (false, .zero per)
        else
          let per := (max 1 (atoi (period.drop 1))).toNat % 2 ^ 16
          if floodtypes.all fun f => fld.limit f.index = 0 then (false, .zero per)
          else (true, { fld with per := per })

/-! ## Writing -/

/-- `%hd` of an unsigned short. -/
def hd (n : ℕ) : List Char := lld ((n : ℤ).bmod (2 ^ 16))

/-- `chmodefstrhelper`, without the comma. -/
def chmodefstrhelper (f : FloodType) (l : ℕ) (a : Char) (r : ℕ) : List Char :=
  hd l ++ f.letter ::
    if a ≠ '\x00' ∧ (a ≠ f.defaultAction ∨ r ≠ 0) then '#' :: a :: if r ≠ 0 then hd r else [] else []

namespace ChannelFloodProtection

variable (fld : ChannelFloodProtection)

def item (f : FloodType) : List Char :=
  chmodefstrhelper f (fld.limit f.index) (fld.action f.index) (fld.removeAfter f.index)

def limited : List FloodType :=
  floodtypes.filter fun f => fld.limit f.index ≠ 0

/-- `channel_modef_string`. -/
def string : List Char :=
  '[' :: (List.intercalate [','] (fld.limited.map fld.item) ++ ']' :: ':' :: hd fld.per)

/-! ## Comparing -/

/-- `compare_floodprot_modes`: the settings are the same. -/
def same (a b : ChannelFloodProtection) : Bool :=
  floodtypes.all fun f => a.limit f.index = b.limit f.index && a.action f.index = b.action f.index &&
    a.removeAfter f.index = b.removeAfter f.index

/-- `cmodef_sjoin_check`, for settings that differ. -/
def merge (our their : ChannelFloodProtection) : ChannelFloodProtection where
  per := max our.per their.per
  limit i := max (our.limit i) (their.limit i)
  action i := max (our.action i) (their.action i)
  removeAfter i := max (our.removeAfter i) (their.removeAfter i)

/-! ## Texts -/

/-- A setting as it is stored. -/
structure Valid (cfg : FloodConfig) (fld : ChannelFloodProtection) : Prop where
  per_pos : 1 ≤ fld.per
  per_lt : fld.per < 2 ^ 15
  limit_le : ∀ i, fld.limit i ≤ 999
  off : ∀ i, fld.limit i = 0 → fld.action i = '\x00' ∧ fld.removeAfter i = 0
  action : ∀ f ∈ floodtypes, fld.limit f.index ≠ 0 → fld.action f.index ∈ f.defaultAction :: f.actions
  remove_le : ∀ i, fld.removeAfter i ≤ 255
  idle : ∀ i, fld.action i = '\x00' → fld.removeAfter i = 0
  timed : ∀ f ∈ floodtypes, f.timedbanRequired = true → cfg.timedbanAvailable = false →
    fld.removeAfter f.index = 0
  on : ∃ f ∈ floodtypes, fld.limit f.index ≠ 0

/-- The settings with those of one type taken from others. -/
def copy (src : ChannelFloodProtection) (i : Flood) : ChannelFloodProtection where
  per := fld.per
  limit := update fld.limit i (src.limit i)
  action := update fld.action i (src.action i)
  removeAfter := update fld.removeAfter i (src.removeAfter i)

/-- Limit, action and minutes of a type. -/
def row (i : Flood) : ℕ × Char × ℕ := (fld.limit i, fld.action i, fld.removeAfter i)

/-- The settings with those of a list of types taken from others. -/
def copyAll (src : ChannelFloodProtection) (l : List FloodType) : ChannelFloodProtection :=
  l.foldl (fun fld f => fld.copy src f.index) fld

end ChannelFloodProtection

open ChannelFloodProtection

theorem hd_eq {n : ℕ} (hn : n < 2 ^ 15) : hd n = decimal n := by
  unfold hd lld
  rw [Int.bmod_eq_of_le (by omega) (by omega), if_neg (by omega), Int.natAbs_natCast]

theorem commaTokens_append {t : List Char} (ht : ∀ c ∈ t, c ≠ ',') (token text : List Char) :
    commaTokens token (t ++ text) = commaTokens (token ++ t) text := by
  induction t generalizing token with
  | nil => rw [nil_append, append_nil]
  | cons c t ih =>
    rw [cons_append, commaTokens, if_neg (ht c mem_cons_self),
      ih fun c' hc' => ht c' (mem_cons_of_mem c hc'), append_assoc, singleton_append]

theorem floodtypes_letters : ∀ f ∈ floodtypes, f.letter.isDigit = false ∧
    findFloodprotByLetter f.letter = some f ∧
    (∀ a ∈ f.letter :: f.defaultAction :: f.actions, a ≠ ',' ∧ a ≠ ']' ∧ a ≠ ' ') ∧
    ∀ a ∈ f.actions, a ≠ '\x00' := by
  have htable : ∀ f ∈ floodtypes, f.letter.isDigit = false ∧
      findFloodprotByLetter f.letter = some f ∧
      (f.letter :: f.defaultAction :: f.actions).all (fun a =>
        decide (a ≠ ',' ∧ a ≠ ']' ∧ a ≠ ' ')) = true ∧
      f.actions.all (fun a => decide (a ≠ '\x00')) = true := by
    decide
  intro f hf
  obtain ⟨hdigit, hfind, hletters, hactions⟩ := htable f hf
  exact ⟨hdigit, hfind, forall_mem_of_all hletters, forall_mem_of_all hactions⟩

theorem ne_of_mem_decimal {n : ℕ} {c : Char} (hc : c ∈ decimal n) :
    c ≠ ',' ∧ c ≠ ']' ∧ c ≠ ' ' := by
  have hdigit := isDigit_of_mem_decimal hc
  refine ⟨?_, ?_, ?_⟩ <;> rintro rfl <;> exact absurd hdigit (by decide)

section Item

variable {cfg : FloodConfig} {fld fld₀ : ChannelFloodProtection} {f : FloodType}

theorem parseFloodItem_eq {strict localclient : Bool}
    {item : List Char × Option (List Char)} {c : Char} {text : List Char} {v : ℕ} {a : Char} {r : ℕ}
    (hdrop : item.1.dropWhile Char.isDigit = c :: text) (hfind : findFloodprotByLetter c = some f)
    (hv : atoi (item.1.takeWhile Char.isDigit) = v) (hpos : 1 ≤ v) (hle : v ≤ 999)
    (haction : floodAction cfg strict localclient item.2 text = (a, r)) :
    parseFloodItem cfg strict localclient fld₀ item = some (fld₀.set cfg f v a r) := by
  have hmax : (max 1 (min (v : ℤ) 999)).toNat = v := by omega
  have hrange : ¬((strict : Prop) ∧ ((v : ℤ) < 1 ∨ 999 < (v : ℤ))) := by omega
  unfold parseFloodItem
  simp only [hdrop, hfind, hv, if_neg hrange, haction, hmax]

variable (hv : fld.Valid cfg)
include hv

theorem ChannelFloodProtection.Valid.item_eq :
    ∃ suffix, fld.item f = decimal (fld.limit f.index) ++ f.letter :: suffix ∧
      (suffix = [] ∧ (fld.action f.index = '\x00' ∨ fld.action f.index = f.defaultAction) ∧
          fld.removeAfter f.index = 0 ∨
        fld.action f.index ≠ '\x00' ∧ (suffix = ['#', fld.action f.index] ∧
            fld.removeAfter f.index = 0 ∨
          suffix = '#' :: fld.action f.index :: decimal (fld.removeAfter f.index))) := by
  have hlimit := hv.limit_le f.index
  have hremove := hv.remove_le f.index
  unfold item chmodefstrhelper
  rw [hd_eq (by omega)]
  refine ⟨_, rfl, ?_⟩
  split
  · rename_i h
    refine .inr ⟨h.1, ?_⟩
    split
    · exact .inr (by rw [hd_eq (by omega)])
    · rename_i hr
      exact .inl ⟨rfl, not_not.mp hr⟩
  · rename_i h
    refine .inl ⟨rfl, ?_⟩
    by_cases ha : fld.action f.index = '\x00'
    · exact ⟨.inl ha, hv.idle _ ha⟩
    · have hor := not_or.mp fun hor => h ⟨ha, hor⟩
      exact ⟨.inr (not_not.mp hor.1), not_not.mp hor.2⟩

theorem ChannelFloodProtection.Valid.length_item_le : (fld.item f).length ≤ 9 := by
  have hlimit := hv.limit_le f.index
  have hremove := hv.remove_le f.index
  have hlen : ∀ {n : ℕ}, n ≤ 999 → (decimal n).length ≤ 3 := fun hn =>
    (Nat.length_toDigits_le_iff (by decide) (by decide)).mpr (by omega)
  have hlen₁ := hlen hlimit
  have hlen₂ := @hlen (fld.removeAfter f.index) (by omega)
  obtain ⟨suffix, htext, hsuffix⟩ := hv.item_eq (f := f)
  rw [htext]
  rcases hsuffix with ⟨rfl, -⟩ | ⟨-, ⟨rfl, -⟩ | rfl⟩ <;>
    simp only [length_append, length_cons, length_nil] <;> omega

variable (hf : f ∈ floodtypes) (hon : fld.limit f.index ≠ 0)
include hf hon

/-- An item has neither commas nor brackets nor blanks. -/
theorem ChannelFloodProtection.Valid.item_chars : ∀ c ∈ fld.item f, c ≠ ',' ∧ c ≠ ']' ∧ c ≠ ' ' := by
  obtain ⟨-, -, hchars, -⟩ := floodtypes_letters f hf
  have hletter := hchars f.letter mem_cons_self
  have haction := hchars _ (mem_cons_of_mem _ (hv.action f hf hon))
  obtain ⟨suffix, htext, hsuffix⟩ := hv.item_eq (f := f)
  rw [htext, forall_mem_append, forall_mem_cons]
  refine ⟨fun c => ne_of_mem_decimal, hletter, ?_⟩
  rcases hsuffix with ⟨rfl, -⟩ | ⟨-, ⟨rfl, -⟩ | rfl⟩
  · exact forall_mem_nil _
  · exact forall_mem_cons.mpr ⟨by decide, forall_mem_singleton.mpr haction⟩
  · exact forall_mem_cons.mpr ⟨by decide, forall_mem_cons.mpr ⟨haction, fun c => ne_of_mem_decimal⟩⟩

theorem ChannelFloodProtection.Valid.action_eq {a : Char}
    (ha : a = fld.action f.index ∨ a = '\x00' ∧ fld.action f.index = f.defaultAction) :
    (if a ≠ '\x00' ∧ floodprotValidAlternateAction a f then a else f.defaultAction) =
      fld.action f.index := by
  obtain ⟨-, -, -, hactions⟩ := floodtypes_letters f hf
  rcases ha with rfl | ⟨rfl, hdefault⟩
  · rcases mem_cons.mp (hv.action f hf hon) with hdefault | hmem
    · rw [← hdefault, ite_self]
    · refine if_pos ⟨hactions _ hmem, ?_⟩
      exact contains_iff_mem.mpr hmem
  · rw [if_neg (fun h => h.1 rfl), hdefault]

theorem ChannelFloodProtection.Valid.set_eq {a : Char}
    (ha : a = fld.action f.index ∨ a = '\x00' ∧ fld.action f.index = f.defaultAction)
    (hzero : fld₀.removeAfter f.index = 0) :
    fld₀.set cfg f (fld.limit f.index) a (fld.removeAfter f.index) = fld₀.copy fld f.index := by
  unfold set copy
  rw [hv.action_eq hf hon ha]
  split
  · rfl
  -- the minutes are not stored without the module for timed bans
  rename_i h
  obtain ⟨hreq, havail⟩ := not_or.mp h
  have hnone := hv.timed f hf (Bool.not_eq_false _ ▸ hreq) (Bool.eq_false_iff.mpr havail)
  rw [hnone, ← hzero, Function.update_eq_self]

theorem parseFloodItem_item (strict : Bool) (hzero : fld₀.removeAfter f.index = 0) (after : Option (List Char)) :
    parseFloodItem cfg strict false fld₀ (fld.item f, after) = some (fld₀.copy fld f.index) := by
  obtain ⟨hletter, hfind, -, hactions⟩ := floodtypes_letters f hf
  obtain ⟨suffix, htext, hsuffix⟩ := hv.item_eq (f := f)
  have hlimit := hv.limit_le f.index
  have hremove := hv.remove_le f.index
  have hlimit_atoi : atoi (decimal (fld.limit f.index)) = fld.limit f.index := atoi_decimal (by omega)
  have hremove_atoi : atoi (decimal (fld.removeAfter f.index)) = fld.removeAfter f.index :=
    atoi_decimal (by omega)
  have hdrop : (decimal (fld.limit f.index) ++ f.letter :: suffix).dropWhile Char.isDigit =
      f.letter :: suffix := by
    rw [dropWhile_append_of_pos fun c hc => isDigit_of_mem_decimal hc,
      dropWhile_cons_of_neg (by simp [hletter])]
  have htake : (decimal (fld.limit f.index) ++ f.letter :: suffix).takeWhile Char.isDigit =
      decimal (fld.limit f.index) :=
    takeWhile_decimal_append _ fun c hc => by
      obtain rfl := Option.some.inj hc
      exact hletter
  -- the action and the minutes of the suffix
  have haction : ∃ a, floodAction cfg strict false after suffix = (a, fld.removeAfter f.index) ∧
      (a = fld.action f.index ∨ a = '\x00' ∧ fld.action f.index = f.defaultAction) := by
    rcases hsuffix with ⟨rfl, hdefault, hr⟩ | ⟨-, ⟨rfl, hr⟩ | rfl⟩
    · refine ⟨'\x00', by rw [hr]; rfl, ?_⟩
      rcases hdefault with hnone | hdefault
      · exact .inl hnone.symm
      · exact .inr ⟨rfl, hdefault⟩
    · exact ⟨fld.action f.index, by rw [hr]; rfl, .inl rfl⟩
    · refine ⟨fld.action f.index, ?_, .inl rfl⟩
      have hmin : min ((fld.removeAfter f.index : ℤ).toNat) 255 = fld.removeAfter f.index := by omega
      unfold floodAction unsetTime
      dsimp only
      rw [if_neg (by decide), if_neg (decimal_ne_nil _), hremove_atoi, Bool.and_false, hmin,
        if_neg Bool.false_ne_true]
  obtain ⟨a, hfloodAction, ha⟩ := haction
  rw [parseFloodItem_eq (htext ▸ hdrop) hfind
    (by rw [htext, htake]; exact hlimit_atoi) (by omega)
    hlimit hfloodAction, hv.set_eq hf hon ha hzero]

end Item

/-! ## The whole text -/

section Whole

variable {cfg : FloodConfig} {fld : ChannelFloodProtection}

theorem foldlM_items (hv : fld.Valid cfg) (strict : Bool) (l : List FloodType)
    (hl : ∀ f ∈ l, f ∈ floodtypes ∧ fld.limit f.index ≠ 0) (hnodup : (l.map FloodType.index).Nodup)
    (fld₀ : ChannelFloodProtection) (hzero : ∀ f ∈ l, fld₀.removeAfter f.index = 0) :
    (commaTokens [] (List.intercalate [','] (l.map fld.item))).foldlM
        (parseFloodItem cfg strict false) fld₀ =
      some (fld₀.copyAll fld l) := by
  induction l generalizing fld₀ with
  | nil => rfl
  | cons f l ih =>
    obtain ⟨hf, hon⟩ := hl f mem_cons_self
    have hchars : ∀ c ∈ fld.item f, c ≠ ',' := fun c hc => (hv.item_chars hf hon c hc).1
    have hne : fld.item f ≠ [] := by
      obtain ⟨suffix, htext, -⟩ := hv.item_eq (f := f)
      exact append_ne_nil_of_right_ne_nil _ (cons_ne_nil _ _)
    have hitem := fun after => parseFloodItem_item hv hf hon strict (hzero f mem_cons_self) after
    obtain ⟨hnotMem, hnodup'⟩ := nodup_cons.mp hnodup
    have hzero' : ∀ f' ∈ l, (fld₀.copy fld f.index).removeAfter f'.index = 0 := by
      intro f' hf'
      have hindex : f'.index ≠ f.index := fun heq => hnotMem (heq ▸ mem_map_of_mem hf')
      show update fld₀.removeAfter f.index _ f'.index = 0
      rw [update_of_ne hindex]
      exact hzero f' (mem_cons_of_mem f hf')
    have hrest := ih (fun f' hf' => hl f' (mem_cons_of_mem f hf')) hnodup' _ hzero'
    rcases l with - | ⟨g, l⟩
    · -- the last item has no comma behind it
      have htokens := commaTokens_append hchars [] []
      rw [append_nil, nil_append, commaTokens, if_neg hne] at htokens
      rw [map_singleton, intercalate_singleton, htokens, foldlM_cons, hitem none]
      rfl
    · have htokens : commaTokens [] (fld.item f ++ ',' :: intercalate [','] ((g :: l).map fld.item)) =
          (fld.item f, some (intercalate [','] ((g :: l).map fld.item))) ::
            commaTokens [] (intercalate [','] ((g :: l).map fld.item)) := by
        rw [commaTokens_append hchars, nil_append, commaTokens, if_pos rfl, if_neg hne]
      rw [map_cons, map_cons, intercalate_cons_cons, append_assoc,
        singleton_append, ← map_cons, htokens, foldlM_cons, hitem]
      exact hrest

theorem ext_row {a b : ChannelFloodProtection} (hper : a.per = b.per)
    (hrow : ∀ i, a.row i = b.row i) : a = b := by
  cases a
  cases b
  simp only [row, Prod.mk.injEq, forall_and, ← funext_iff] at hper hrow ⊢
  simp [hper, hrow]

theorem copyAll_row (l : List FloodType) (fld₀ : ChannelFloodProtection) :
    (fld₀.copyAll fld l).per = fld₀.per ∧ ∀ i, (fld₀.copyAll fld l).row i =
      if i ∈ l.map FloodType.index then fld.row i else fld₀.row i := by
  induction l generalizing fld₀ with
  | nil => simp [copyAll]
  | cons f l ih =>
    obtain ⟨hper, hrow⟩ := ih (fld₀.copy fld f.index)
    refine ⟨hper, fun i => (hrow i).trans ?_⟩
    by_cases hi : i = f.index
    · subst hi
      simp [copy, row]
    · simp [copy, row, hi]

theorem floodtypes_index (i : Flood) : ∃ f ∈ floodtypes, f.index = i := by
  cases i <;> decide

theorem mem_limited {f : FloodType} : f ∈ fld.limited ↔ f ∈ floodtypes ∧ fld.limit f.index ≠ 0 := by
  unfold limited
  rw [mem_filter, decide_eq_true_eq]

theorem mem_limited_index {i : Flood} : i ∈ fld.limited.map FloodType.index ↔ fld.limit i ≠ 0 := by
  constructor
  · intro hi
    obtain ⟨f, hf, rfl⟩ := mem_map.mp hi
    exact (mem_limited.mp hf).2
  · intro hi
    obtain ⟨f, hf, rfl⟩ := floodtypes_index i
    exact mem_map_of_mem (mem_limited.mpr ⟨hf, hi⟩)

theorem ChannelFloodProtection.Valid.copyAll_limited (hv : fld.Valid cfg) (per : ℕ) :
    (zero per).copyAll fld fld.limited = { fld with per := per } := by
  obtain ⟨hper, hrow⟩ := @copyAll_row fld fld.limited (.zero per)
  refine ext_row hper fun i => (hrow i).trans ?_
  split_ifs with hi
  · rfl
  · have hoff : fld.limit i = 0 := not_not.mp (mem_limited_index.not.mp hi)
    simp [row, zero, hoff, hv.off i hoff]

theorem length_intercalate_le (l : List (List Char)) (hl : ∀ x ∈ l, x.length ≤ 9) :
    (List.intercalate [','] l).length ≤ 10 * l.length := by
  induction l with
  | nil => simp
  | cons x l ih =>
    have hx := hl x mem_cons_self
    have hrest := ih fun y hy => hl y (mem_cons_of_mem x hy)
    rcases l with - | ⟨y, l⟩
    · simp
      omega
    · rw [intercalate_cons_cons]
      simp only [length_append, length_cons, length_nil] at hrest ⊢
      omega

variable (hv : fld.Valid cfg)
include hv

namespace ChannelFloodProtection.Valid

theorem length_items_le :
    (List.intercalate [','] (fld.limited.map fld.item)).length ≤ 80 := by
  have hitems := length_intercalate_le (fld.limited.map fld.item) (by
    intro x hx
    obtain ⟨f, -, rfl⟩ := mem_map.mp hx
    exact hv.length_item_le)
  have hcount : fld.limited.length ≤ 8 := length_filter_le _ _
  rw [length_map] at hitems
  omega

theorem length_string_le : fld.string.length ≤ 88 := by
  have hitems := hv.length_items_le
  have hper : (decimal fld.per).length ≤ 5 :=
    (Nat.length_toDigits_le_iff (by decide) (by decide)).mpr (by have := hv.per_lt; omega)
  unfold string
  rw [hd_eq hv.per_lt]
  simp only [length_append, length_cons]
  omega

/-- The items contain neither brackets nor blanks. -/
theorem items_chars (l : List FloodType) (hl : ∀ f ∈ l, f ∈ floodtypes ∧ fld.limit f.index ≠ 0) :
    ∀ c ∈ List.intercalate [','] (l.map fld.item), c ≠ ']' ∧ c ≠ ' ' := by
  induction l with
  | nil => simp
  | cons f l ih =>
    obtain ⟨hf, hon⟩ := hl f mem_cons_self
    have hrest := ih fun f' hf' => hl f' (mem_cons_of_mem f hf')
    have hitem := fun c hc => (hv.item_chars hf hon c hc).2
    rcases l with - | ⟨g, l⟩
    · rw [map_singleton, intercalate_singleton]
      exact hitem
    rw [map_cons, map_cons, intercalate_cons_cons, forall_mem_append, forall_mem_append]
    exact ⟨⟨hitem, forall_mem_singleton.mpr (by decide)⟩, hrest⟩

theorem string_chars : ∀ c ∈ fld.string, c ≠ ' ' := by
  have hitems := hv.items_chars fld.limited fun f hf => mem_limited.mp hf
  unfold string
  rw [hd_eq hv.per_lt]
  simp only [forall_mem_cons, forall_mem_append]
  exact ⟨by decide, fun c hc => (hitems c hc).2, by decide, by decide,
    fun c hc => (ne_of_mem_decimal hc).2.2⟩

end ChannelFloodProtection.Valid

/-- The items of a setting are read back, whatever its period is. -/
theorem parseChannelModeFlood_items (strict : Bool) (per : ℕ) {period : List Char}
    (hne : period ≠ []) (hperiod : period.length ≤ 10) :
    parseChannelModeFlood cfg strict false per
        ('[' :: (List.intercalate [','] (fld.limited.map fld.item) ++ ']' :: ':' :: period)) =
      (true, { fld with per := (max 1 (atoi period)).toNat % 2 ^ 16 }) := by
  have hlength := hv.length_items_le
  have hlimited : ∀ f ∈ fld.limited, f ∈ floodtypes ∧ fld.limit f.index ≠ 0 := fun f hf =>
    mem_limited.mp hf
  have hnodup : (fld.limited.map FloodType.index).Nodup := by
    have hall : (floodtypes.map FloodType.index).Nodup := by decide
    exact hall.sublist (filter_sublist.map FloodType.index)
  have hitems := foldlM_items hv strict fld.limited hlimited hnodup (.zero per) fun _ _ => rfl
  rw [hv.copyAll_limited] at hitems
  have hchars := hv.items_chars fld.limited hlimited
  generalize intercalate [','] (fld.limited.map fld.item) = body at hitems hchars hlength
  have hdecide : ∀ c ∈ body, decide (c ≠ ']') = true := fun c hc =>
    decide_eq_true (hchars c hc).1
  have htake : (body ++ ']' :: ':' :: period).takeWhile (· ≠ ']') = body := by
    rw [takeWhile_append_of_pos hdecide, takeWhile_cons_of_neg (by simp), append_nil]
  have hdrop : ((body ++ ']' :: ':' :: period).dropWhile (· ≠ ']')).drop 1 = ':' :: period := by
    rw [dropWhile_append_of_pos hdecide]
    rfl
  have hon : (floodtypes.all fun f => decide (fld.limit f.index = 0)) = false := by
    obtain ⟨f, hf, hne⟩ := hv.on
    exact all_eq_false.mpr ⟨f, hf, by simpa using hne⟩
  have htext : ('[' :: (body ++ ']' :: ':' :: period)).length ≤ 255 := by
    simp only [length_append, length_cons]
    omega
  unfold parseChannelModeFlood
  rw [take_of_length_le htext]
  dsimp only
  rw [hdrop, htake, if_neg (by simp), hitems]
  dsimp only
  rw [drop_one, tail_cons, if_neg hne, hon, if_neg Bool.false_ne_true]

theorem parseChannelModeFlood_string (strict : Bool) (per : ℕ) :
    parseChannelModeFlood cfg strict false per fld.string = (true, fld) := by
  have hper_lt := hv.per_lt
  have hper_pos := hv.per_pos
  have hper : (max 1 (atoi (decimal fld.per))).toNat % 2 ^ 16 = fld.per := by
    rw [atoi_decimal (by omega)]
    omega
  unfold string
  rw [hd_eq hper_lt, parseChannelModeFlood_items hv strict per (decimal_ne_nil _)
    (length_decimal_le (by omega)), hper]

omit hv

end Whole

/-! ## Any text

A text that is accepted is stored as a valid setting, because the text that is stored is not the one
that was given but the one that the setting is printed as (`parse_string_valid`). -/

section Parsed

variable {cfg : FloodConfig} {fld : ChannelFloodProtection}

/-- What holds while items are read. -/
structure ChannelFloodProtection.Parsed (cfg : FloodConfig) (fld : ChannelFloodProtection) : Prop where
  limit_le : ∀ i, fld.limit i ≤ 999
  off : ∀ i, fld.limit i = 0 → fld.action i = '\x00' ∧ fld.removeAfter i = 0
  action : ∀ f ∈ floodtypes, fld.limit f.index ≠ 0 → fld.action f.index ∈ f.defaultAction :: f.actions
  remove_le : ∀ i, fld.removeAfter i ≤ 255
  timed : ∀ f ∈ floodtypes, f.timedbanRequired = true → cfg.timedbanAvailable = false →
    fld.removeAfter f.index = 0

theorem ChannelFloodProtection.parsed_zero (cfg : FloodConfig) (per : ℕ) :
    (zero per).Parsed cfg where
  limit_le _ := Nat.zero_le _
  off _ _ := ⟨rfl, rfl⟩
  action _ _ h := absurd rfl h
  remove_le _ := Nat.zero_le _
  timed _ _ _ _ := rfl

variable {f : FloodType} {strict : Bool} {fld' : ChannelFloodProtection}

theorem eq_of_index {g : FloodType} (hf : f ∈ floodtypes) (hg : g ∈ floodtypes)
    (h : f.index = g.index) : f = g := by
  have hall : ∀ f ∈ floodtypes, ∀ g ∈ floodtypes, f.index = g.index → f = g := by decide
  exact hall f hf g hg h

theorem ChannelFloodProtection.set_self (v : ℕ) (a : Char) (r : ℕ) :
    (fld.set cfg f v a r).row f.index =
      (v, if a ≠ '\x00' ∧ floodprotValidAlternateAction a f then a else f.defaultAction,
        if f.timedbanRequired = false ∨ cfg.timedbanAvailable then r
        else fld.removeAfter f.index) := by
  unfold ChannelFloodProtection.set row
  split_ifs <;> simp

theorem ChannelFloodProtection.set_of_ne {i : Flood} (hi : i ≠ f.index) (v : ℕ) (a : Char) (r : ℕ) :
    (fld.set cfg f v a r).row i = fld.row i := by
  unfold ChannelFloodProtection.set row
  split_ifs <;> simp [hi]

theorem ChannelFloodProtection.Parsed.set (hp : fld.Parsed cfg) {f : FloodType}
    (hf : f ∈ floodtypes) {v : ℕ} (hpos : 1 ≤ v) (hle : v ≤ 999) (a : Char) {r : ℕ} (hr : r ≤ 255) :
    (fld.set cfg f v a r).Parsed cfg := by
  obtain ⟨hlimit, haction, hremove⟩ : _ ∧ _ ∧ _ := by simpa [row] using @set_self cfg fld f v a r
  have hother := fun i hi => @set_of_ne cfg fld f i hi v a r
  simp only [row, Prod.mk.injEq] at hother
  refine ⟨fun i => ?_, fun i hoff => ?_, fun g hg hon => ?_, fun i => ?_, fun g hg hreq havail => ?_⟩
  · by_cases hi : i = f.index
    · rw [hi, hlimit]
      exact hle
    · rw [(hother i hi).1]
      exact hp.limit_le i
  · have hi : i ≠ f.index := by
      rintro rfl
      omega
    obtain ⟨hl, ha, hr⟩ := hother i hi
    rw [ha, hr]
    exact hp.off i (hl ▸ hoff)
  · by_cases hindex : g.index = f.index
    · obtain rfl := eq_of_index hg hf hindex
      rw [haction]
      split
      · rename_i h
        exact mem_cons_of_mem _ (contains_iff_mem.mp h.2)
      · exact mem_cons_self
    · obtain ⟨hl, ha, -⟩ := hother g.index hindex
      rw [ha]
      exact hp.action g hg (hl ▸ hon)
  · by_cases hi : i = f.index
    · rw [hi, hremove]
      split
      · exact hr
      · exact hp.remove_le _
    · rw [(hother i hi).2.2]
      exact hp.remove_le i
  · by_cases hindex : g.index = f.index
    · obtain rfl := eq_of_index hg hf hindex
      rw [hremove, if_neg (by simp [hreq, havail])]
      exact hp.timed g hg hreq havail
    · rw [(hother g.index hindex).2.2]
      exact hp.timed g hg hreq havail

section Parsed

-- `modef_default_unsettime` is an `unsigned char`, and only for local clients
variable {localclient : Bool} (hunset : localclient = true → cfg.defaultUnsettime ≤ 255)
include hunset

/-- The minutes of an item fit into an `unsigned char`. -/
theorem floodAction_remove_le (strict : Bool) (after : Option (List Char)) (text : List Char) :
    (floodAction cfg strict localclient after text).2 ≤ 255 := by
  have htime : ∀ text, unsetTime cfg strict localclient text ≤ 255 := by
    intro text
    unfold unsetTime
    dsimp only
    split
    · exact Nat.le_trans (Nat.min_le_left _ _) (Nat.min_le_right _ _)
    · exact Nat.min_le_right _ _
  unfold floodAction
  dsimp only
  repeat' split
  all_goals first | exact Nat.zero_le _ | exact hunset ‹_› | exact htime _

theorem ChannelFloodProtection.Parsed.parseFloodItem (hp : fld.Parsed cfg) {strict : Bool}
    {item : List Char × Option (List Char)} {fld' : ChannelFloodProtection}
    (h : parseFloodItem cfg strict localclient fld item = some fld') : fld'.Parsed cfg := by
  unfold Chanmode.parseFloodItem at h
  split at h
  · obtain rfl := Option.some.inj h
    exact hp
  rename_i c text _
  split at h
  · obtain rfl := Option.some.inj h
    exact hp
  rename_i f hfind
  have hf := mem_of_find?_eq_some hfind
  dsimp only at h
  split at h
  · cases h
  · obtain rfl := Option.some.inj h
    exact hp.set hf (by omega) (by omega) _ (floodAction_remove_le hunset strict item.2 text)

theorem ChannelFloodProtection.Parsed.foldlM (items : List (List Char × Option (List Char)))
    {fld : ChannelFloodProtection} (hp : fld.Parsed cfg)
    (h : items.foldlM (Chanmode.parseFloodItem cfg strict localclient) fld = some fld') :
    fld'.Parsed cfg := by
  induction items generalizing fld with
  | nil => exact Option.some.inj h ▸ hp
  | cons item items ih =>
    obtain ⟨fld₁, hitem, hrest⟩ := Option.bind_eq_some_iff.mp h
    exact ih (hp.parseFloodItem hunset hitem) hrest

end Parsed

variable {item : List Char × Option (List Char)}

/-- The items of a parameter: the part between the brackets. -/
def floodItems (param : List Char) : List (List Char × Option (List Char)) :=
  commaTokens [] ((param.take 255).tail.takeWhile (· ≠ ']'))

def floodPeriod (param : List Char) : ℕ :=
  (max 1 (atoi (((param.take 255).tail.dropWhile (· ≠ ']')).drop 2))).toNat % 2 ^ 16

variable {per : ℕ}

theorem parse_cases {localclient : Bool} {param : List Char}
    (h : parseChannelModeFlood cfg strict localclient per param = (true, fld)) :
    ∃ fld₁, (floodItems param).foldlM (parseFloodItem cfg strict localclient) (.zero per) =
        some fld₁ ∧ fld = { fld₁ with per := floodPeriod param } ∧
      ∃ f ∈ floodtypes, fld₁.limit f.index ≠ 0 := by
  unfold floodItems floodPeriod
  unfold parseChannelModeFlood at h
  split at h
  · cases h
  rename_i c xbuf htake
  rw [htake]
  dsimp only at h
  split at h
  · cases h
  split at h
  · cases h
  rename_i fld₁ hitems
  split at h
  · cases h
  split at h
  · cases h
  rename_i hon
  rw [drop_drop] at h
  obtain ⟨f, hf, hne⟩ := all_eq_false.mp (Bool.eq_false_iff.mpr hon)
  exact ⟨fld₁, hitems, (Prod.mk.inj h).2.symm, f, hf, by simpa using hne⟩

theorem parsed_of_parse {localclient : Bool}
    (hunset : localclient = true → cfg.defaultUnsettime ≤ 255) {s : List Char}
    (h : parseChannelModeFlood cfg strict localclient per s = (true, fld)) :
    fld.Parsed cfg ∧ ∃ f ∈ floodtypes, fld.limit f.index ≠ 0 := by
  obtain ⟨fld₁, hitems, rfl, hon⟩ := parse_cases h
  have hp := (parsed_zero cfg per).foldlM hunset _ hitems
  exact ⟨⟨hp.limit_le, hp.off, hp.action, hp.remove_le, hp.timed⟩, hon⟩

/-- The setting that is left after printing: without an action there are no minutes. -/
def ChannelFloodProtection.printed (fld : ChannelFloodProtection) (per : ℕ) : ChannelFloodProtection :=
  { fld with
    per := per
    removeAfter := fun i => if fld.action i = '\x00' then 0 else fld.removeAfter i }

theorem ChannelFloodProtection.printed_item (fld : ChannelFloodProtection) (per : ℕ) (f : FloodType) :
    (fld.printed per).item f = fld.item f := by
  show chmodefstrhelper f (fld.limit f.index) (fld.action f.index)
    (if fld.action f.index = '\x00' then 0 else fld.removeAfter f.index) =
      chmodefstrhelper f (fld.limit f.index) (fld.action f.index) (fld.removeAfter f.index)
  by_cases haction : fld.action f.index = '\x00'
  · unfold chmodefstrhelper
    rw [if_neg (fun h => h.1 haction), if_neg (fun h => h.1 haction)]
  · rw [if_neg haction]

section

variable (hp : fld.Parsed cfg) (hon : ∃ f ∈ floodtypes, fld.limit f.index ≠ 0)
include hp hon

theorem ChannelFloodProtection.Parsed.printed_valid (hpos : 1 ≤ per) (hlt : per < 2 ^ 15) :
    (fld.printed per).Valid cfg where
  per_pos := hpos
  per_lt := hlt
  limit_le := hp.limit_le
  off i hoff := ⟨(hp.off i hoff).1, if_pos (hp.off i hoff).1⟩
  action := hp.action
  remove_le i := by
    unfold printed
    dsimp only
    split
    · exact Nat.zero_le _
    · exact hp.remove_le i
  idle i hidle := if_pos hidle
  timed f hf hreq havail := by
    simp [printed, hp.timed f hf hreq havail, ite_self]
  on := hon

/-- The text of a setting that was read is read as what is left after printing. -/
theorem parse_string (strict : Bool) (per : ℕ) :
    parseChannelModeFlood cfg strict false per fld.string =
      (true, fld.printed (max 1 ((fld.per : ℤ).bmod (2 ^ 16))).toNat) := by
  have hge : -(2 ^ 15 : ℤ) ≤ (fld.per : ℤ).bmod (2 ^ 16) := Int.le_bmod (by decide)
  have hlt : (fld.per : ℤ).bmod (2 ^ 16) < 2 ^ 15 := Int.bmod_lt (by decide)
  have hperiod : atoi (hd fld.per) = (fld.per : ℤ).bmod (2 ^ 16) := atoi_lld (by omega) (by omega)
  have hlength : (hd fld.per).length ≤ 10 ∧ hd fld.per ≠ [] := by
    have hdigits : (decimal ((fld.per : ℤ).bmod (2 ^ 16)).natAbs).length ≤ 5 :=
      (Nat.length_toDigits_le_iff (by decide) (by decide)).mpr (by omega)
    unfold hd lld
    split
    · exact ⟨by rw [length_cons]; omega, cons_ne_nil _ _⟩
    · exact ⟨by omega, decimal_ne_nil _⟩
  have hvalid := hp.printed_valid hon (Nat.le_refl 1) (by decide)
  have htext : fld.string = '[' :: (intercalate [',']
      ((fld.printed 1).limited.map (fld.printed 1).item) ++ ']' :: ':' :: hd fld.per) := by
    rw [funext (fld.printed_item 1)]
    rfl
  rw [htext, parseChannelModeFlood_items hvalid strict per hlength.2 hlength.1, hperiod,
    Nat.mod_eq_of_lt (by omega)]
  rfl

/-- The text of a setting that was read is stored as a valid setting. -/
theorem parse_string_valid (strict : Bool) (per : ℕ) :
    ∃ fld', parseChannelModeFlood cfg strict false per fld.string = (true, fld') ∧
      fld'.Valid cfg := by
  have hlt : (fld.per : ℤ).bmod (2 ^ 16) < 2 ^ 15 := Int.bmod_lt (by decide)
  exact ⟨_, parse_string hp hon strict per, hp.printed_valid hon (by omega) (by omega)⟩

end

/-! ## Stable texts

The text that a server stores and sends is the one that the settings are printed as. It loses the
period where a signed short cannot hold it, and the minutes of an item that has no action. -/

def itemType (item : List Char × Option (List Char)) : Option FloodType :=
  (item.1.dropWhile Char.isDigit).head?.bind findFloodprotByLetter

def MinutesOnly (cfg : FloodConfig) (f : FloodType) (item : List Char × Option (List Char)) : Prop :=
  let given := floodAction cfg false false item.2 ((item.1.dropWhile Char.isDigit).drop 1)
  (f.timedbanRequired = false ∨ cfg.timedbanAvailable) ∧ f.defaultAction = '\x00' ∧
    floodprotValidAlternateAction given.1 f = false ∧ given.2 ≠ 0

instance (cfg : FloodConfig) (f : FloodType) (item : List Char × Option (List Char)) :
    Decidable (MinutesOnly cfg f item) :=
  inferInstanceAs (Decidable (_ ∧ _))

/-- A parameter that is printed without a loss: its period fits a signed short, and the last item of
each type has an action if it has minutes. -/
def StableParam (cfg : FloodConfig) (param : List Char) : Prop :=
  (1 ≤ floodPeriod param ∧ floodPeriod param < 2 ^ 15) ∧
    ∀ f ∈ floodtypes, ∀ item ∈ ((floodItems param).filter (itemType · = some f)).getLast?,
      ¬ MinutesOnly cfg f item

def ChannelFloodProtection.Idle (fld : ChannelFloodProtection) (i : Flood) : Prop :=
  fld.action i = '\x00' ∧ fld.removeAfter i ≠ 0

theorem ChannelFloodProtection.Parsed.set_idle (hp : fld.Parsed cfg)
    (hf : f ∈ floodtypes) (v : ℕ) (a : Char) (r : ℕ) :
    (fld.set cfg f v a r).Idle f.index ↔
      (f.timedbanRequired = false ∨ cfg.timedbanAvailable) ∧ f.defaultAction = '\x00' ∧
        floodprotValidAlternateAction a f = false ∧ r ≠ 0 := by
  have hactions : ∀ f ∈ floodtypes, '\x00' ∉ f.actions := by decide
  have haction : (if a ≠ '\x00' ∧ floodprotValidAlternateAction a f then a else f.defaultAction) =
      '\x00' ↔ f.defaultAction = '\x00' ∧ floodprotValidAlternateAction a f = false := by
    by_cases hvalid : floodprotValidAlternateAction a f = true
    · have hne : a ≠ '\x00' := fun h => hactions f hf (h ▸ contains_iff_mem.mp hvalid)
      rw [if_pos ⟨hne, hvalid⟩]
      exact iff_of_false hne (fun h => absurd hvalid (by rw [h.2]; decide))
    · rw [if_neg (fun h => hvalid h.2)]
      exact (and_iff_left (Bool.eq_false_iff.mpr hvalid)).symm
  show ((fld.set cfg f v a r).row f.index).2.1 = '\x00' ∧
    ((fld.set cfg f v a r).row f.index).2.2 ≠ 0 ↔ _
  rw [set_self, haction]
  by_cases hstored : f.timedbanRequired = false ∨ cfg.timedbanAvailable = true
  · rw [if_pos hstored, and_iff_right hstored, and_assoc]
  -- The minutes of the item are not stored, and there are none.
  have hreq : f.timedbanRequired = true := by simpa using fun h => hstored (.inl h)
  have havail : cfg.timedbanAvailable = false := by simpa using fun h => hstored (.inr h)
  rw [if_neg hstored, hp.timed f hf hreq havail]
  exact iff_of_false (fun h => h.2 rfl) (fun h => hstored h.1)

/-- An item of another type leaves the settings of a type alone, and one of the type decides. -/
theorem parseFloodItem_idle (hp : fld.Parsed cfg)
    (h : parseFloodItem cfg false false fld item = some fld') (hf : f ∈ floodtypes) :
    fld'.Idle f.index ↔
      if itemType item = some f then MinutesOnly cfg f item else fld.Idle f.index := by
  unfold parseFloodItem at h
  unfold itemType MinutesOnly
  rcases hitem : item.1.dropWhile Char.isDigit with _ | ⟨c, text⟩
  · rw [hitem] at h
    obtain rfl := Option.some.inj h
    rw [if_neg (by simp)]
  · rw [hitem] at h
    simp only [head?_cons, Option.bind_some] at h ⊢
    obtain ⟨found, hfind⟩ : ∃ found, findFloodprotByLetter c = found := ⟨_, rfl⟩
    simp only [hfind] at h ⊢
    rcases found with _ | g
    · obtain rfl := Option.some.inj h
      rw [if_neg (by simp)]
    obtain rfl := Option.some.inj h
    have hg := mem_of_find?_eq_some hfind
    by_cases hfg : g = f
    · subst hfg
      rw [if_pos rfl]
      exact hp.set_idle hf _ _ _
    · have hindex : f.index ≠ g.index := fun hi => hfg (eq_of_index hf hg hi).symm
      rw [if_neg (fun h => hfg (Option.some.inj h))]
      unfold ChannelFloodProtection.Idle ChannelFloodProtection.set
      split_ifs <;> simp only [update_of_ne hindex]

theorem idle_foldlM (hf : f ∈ floodtypes) (items : List (List Char × Option (List Char)))
    (h : items.foldlM (parseFloodItem cfg false false) (.zero per) = some fld) :
    fld.Idle f.index ↔
      ∃ item ∈ (items.filter (itemType · = some f)).getLast?, MinutesOnly cfg f item := by
  -- Induction on the items read so far.
  induction items using reverseRecOn generalizing fld with
  | nil =>
    obtain rfl := Option.some.inj h
    exact iff_of_false (fun h => h.2 rfl) (by simp)
  | append_singleton items item ih =>
    rw [foldlM_append] at h
    obtain ⟨fld₁, hitems, hlast⟩ := Option.bind_eq_some_iff.mp h
    obtain ⟨fld₂, hitem, hpure⟩ := Option.bind_eq_some_iff.mp hlast
    obtain rfl := Option.some.inj hpure
    have hp := (parsed_zero cfg per).foldlM (fun h => absurd h Bool.false_ne_true) _ hitems
    rw [parseFloodItem_idle hp hitem hf]
    by_cases htype : itemType item = some f
    · simp [htype]
    · simp [htype, ih hitems]

/-- Printing keeps settings as they are, exactly when their period fits a signed short and they have
no minutes without an action. -/
theorem ChannelFloodProtection.printed_eq_iff (hper : fld.per < 2 ^ 16) :
    fld.printed (max 1 ((fld.per : ℤ).bmod (2 ^ 16))).toNat = fld ↔
      (1 ≤ fld.per ∧ fld.per < 2 ^ 15) ∧ ∀ f ∈ floodtypes, ¬ fld.Idle f.index := by
  have hbmod : (fld.per : ℤ).bmod (2 ^ 16) =
      if fld.per < 2 ^ 15 then (fld.per : ℤ) else fld.per - 2 ^ 16 := by
    rw [Int.bmod_def]
    split_ifs <;> omega
  have hfield : fld.printed (max 1 ((fld.per : ℤ).bmod (2 ^ 16))).toNat = fld ↔
      (max 1 ((fld.per : ℤ).bmod (2 ^ 16))).toNat = fld.per ∧
        (fun i => if fld.action i = '\x00' then 0 else fld.removeAfter i) = fld.removeAfter := by
    cases fld
    simp [printed]
  rw [hfield, hbmod]
  refine and_congr (by split_ifs <;> omega) ⟨fun h f _ hidle => ?_, fun h => funext fun i => ?_⟩
  · have hzero := congrFun h f.index
    rw [if_pos hidle.1] at hzero
    exact hidle.2 hzero.symm
  · obtain ⟨f, hf, rfl⟩ := floodtypes_index i
    split_ifs with haction
    · by_contra hne
      exact h f hf ⟨haction, fun hzero => hne hzero.symm⟩
    · rfl

/-- The text of the settings that were read from a parameter is read as the same settings, and
printed as the same text, exactly when the parameter is printed without a loss. -/
theorem parse_stable_iff (cfg : FloodConfig) (per per' : ℕ) (param : List Char)
    (fld : ChannelFloodProtection)
    (h : parseChannelModeFlood cfg false false per param = (true, fld)) :
    (∃ fld', parseChannelModeFlood cfg false false per' fld.string = (true, fld') ∧ fld' = fld ∧
      fld'.string = fld.string) ↔ StableParam cfg param := by
  obtain ⟨hp, hon⟩ := parsed_of_parse (fun h => absurd h Bool.false_ne_true) h
  obtain ⟨fld₁, hitems, hfld, -⟩ := parse_cases h
  have hper : fld.per = floodPeriod param := by rw [hfld]
  have hlt : floodPeriod param < 2 ^ 16 := Nat.mod_lt _ (by decide)
  have hidle : ∀ f ∈ floodtypes, (fld.Idle f.index ↔
      ∃ item ∈ ((floodItems param).filter (itemType · = some f)).getLast?,
        MinutesOnly cfg f item) := by
    intro f hf
    rw [← idle_foldlM hf _ hitems, hfld]
    rfl
  calc (∃ fld', parseChannelModeFlood cfg false false per' fld.string = (true, fld') ∧ fld' = fld ∧
        fld'.string = fld.string)
      ↔ fld.printed (max 1 ((fld.per : ℤ).bmod (2 ^ 16))).toNat = fld := by
        rw [parse_string hp hon]
        constructor
        · rintro ⟨fld', heq, hsame, -⟩
          exact (Prod.mk.inj heq).2.trans hsame
        · intro heq
          exact ⟨fld, by rw [heq], rfl, rfl⟩
    _ ↔ (1 ≤ fld.per ∧ fld.per < 2 ^ 15) ∧ ∀ f ∈ floodtypes, ¬ fld.Idle f.index :=
        printed_eq_iff (by omega)
    _ ↔ StableParam cfg param := by
        rw [hper]
        refine and_congr_right fun _ => forall₂_congr fun f hf => ?_
        rw [hidle f hf]
        simp only [not_exists, not_and]

/-- Settings for the examples: bans with a time are available. -/
def exampleFloodConfig : FloodConfig := ⟨0, 0, true⟩

/-- `parse_stable_iff` for a text with an action and minutes. -/
theorem parse_stable_text :
    ∃ fld', parseChannelModeFlood exampleFloodConfig false false 0
        (parseChannelModeFlood exampleFloodConfig false false 0 "[5t#b7]:10".toList).2.string =
          (true, fld') ∧
      fld' = (parseChannelModeFlood exampleFloodConfig false false 0 "[5t#b7]:10".toList).2 ∧
      fld'.string =
        (parseChannelModeFlood exampleFloodConfig false false 0 "[5t#b7]:10".toList).2.string :=
  (parse_stable_iff exampleFloodConfig 0 0 "[5t#b7]:10".toList _ rfl).mpr ⟨by decide, by decide⟩

/-- A period of 40000 is sent as a negative one, and read as one second. -/
theorem parse_loses_period :
    (parseChannelModeFlood exampleFloodConfig false false 0 "[5t]:40000".toList).1 = true ∧
      (parseChannelModeFlood exampleFloodConfig false false 0 "[5t]:40000".toList).2.per = 40000 ∧
      (parseChannelModeFlood exampleFloodConfig false false 0
        (parseChannelModeFlood exampleFloodConfig false false 0 "[5t]:40000".toList).2.string).2.per
          = 1 := by
  decide +kernel

end Parsed

/-! ## Two settings -/

section Merge

variable {cfg : FloodConfig} {a b : ChannelFloodProtection}

namespace ChannelFloodProtection

theorem merge_comm (a b : ChannelFloodProtection) :
    a.merge b = b.merge a := by
  unfold merge
  simp only [max_comm]

theorem same_iff : a.same b = true ↔ ∀ i, a.row i = b.row i := by
  simp only [same, row, all_eq_true, Bool.and_eq_true, decide_eq_true_eq, Prod.mk.injEq, and_assoc]
  refine ⟨fun h i => ?_, fun h f _ => h f.index⟩
  obtain ⟨f, hf, rfl⟩ := floodtypes_index i
  exact h f hf

theorem same_comm (a b : ChannelFloodProtection) : a.same b = b.same a := by
  rw [Bool.eq_iff_iff, same_iff, same_iff]
  exact forall_congr' fun i => eq_comm

theorem Valid.merge (ha : a.Valid cfg) (hb : b.Valid cfg) :
    (a.merge b).Valid cfg where
  per_pos := Nat.le_trans ha.per_pos (Nat.le_max_left _ _)
  per_lt := Nat.max_lt.mpr ⟨ha.per_lt, hb.per_lt⟩
  limit_le i := Nat.max_le.mpr ⟨ha.limit_le i, hb.limit_le i⟩
  off i hoff := by
    have hoff' : max (a.limit i) (b.limit i) = 0 := hoff
    obtain ⟨haction, hremove⟩ := ha.off i (by omega)
    obtain ⟨haction', hremove'⟩ := hb.off i (by omega)
    exact ⟨by simp [ChannelFloodProtection.merge, haction, haction'],
      by simp [ChannelFloodProtection.merge, hremove, hremove']⟩
  action f hf hon := by
    have hon' : max (a.limit f.index) (b.limit f.index) ≠ 0 := hon
    show max (a.action f.index) (b.action f.index) ∈ _
    by_cases hlimit : a.limit f.index = 0
    · rw [(ha.off _ hlimit).1]
      exact hb.action f hf (by omega)
    by_cases hlimit' : b.limit f.index = 0
    · rw [(hb.off _ hlimit').1, max_comm]
      exact ha.action f hf hlimit
    rcases max_choice (a.action f.index) (b.action f.index) with h | h
    · rw [h]
      exact ha.action f hf hlimit
    · rw [h]
      exact hb.action f hf hlimit'
  remove_le i := Nat.max_le.mpr ⟨ha.remove_le i, hb.remove_le i⟩
  idle i hidle := by
    have hidle' : max (a.action i) (b.action i) = '\x00' := hidle
    have hle : ∀ c : Char, c ≤ '\x00' → c = '\x00' := fun c hc =>
      le_antisymm hc (Nat.zero_le _)
    have haction := hle _ (hidle' ▸ le_max_left (a.action i) (b.action i))
    have haction' := hle _ (hidle' ▸ le_max_right (a.action i) (b.action i))
    show max (a.removeAfter i) (b.removeAfter i) = 0
    rw [ha.idle i haction, hb.idle i haction']
    rfl
  timed f hf hreq havail := by
    show max (a.removeAfter f.index) (b.removeAfter f.index) = 0
    rw [ha.timed f hf hreq havail, hb.timed f hf hreq havail]
    rfl
  on := by
    obtain ⟨f, hf, hne⟩ := ha.on
    refine ⟨f, hf, ?_⟩
    show max (a.limit f.index) (b.limit f.index) ≠ 0
    omega

end ChannelFloodProtection

end Merge

end ObbyIRCd.Chanmode
