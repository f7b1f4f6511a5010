import Mathlib.Logic.Relation
import Mathlib.Order.WellFoundedSet

/-!
# Roles that inherit from each other

A role may inherit from another one by name. `member_roles_configtest` looks for cycles in the text
of one file: from a name it goes on with the first block of that name there and the first `inherit`
in it. `member_roles_configrun` makes the roles of all files: a name stands for the last block, and
a block inherits by its last `inherit`. It resolves the inheritance at the end of every
`member-roles` block, so that a cycle matters also if a later block breaks it. A cycle that both see
is refused (`not_followed_cycle`); others pass, as do names that no block defines.
-/

namespace ObbyIRCd.MemberRoles

open Relation List

/-- The items of a `permissions` directive: the nine that are `yes` or `no`, and the others. -/
inductive ItemName
  | flag
  | canSet
  | canUnset
  | inherit
  | other
deriving DecidableEq

structure Item where
  name : ItemName
  value : Option String
deriving DecidableEq

inductive Directive
  | rolePrefix (value : Option String)
  | rank (value : Option String)
  | mode (value : Option String)
  | permissions (items : List Item)
  | other

/-- The block of a role, or of `default`. -/
structure RoleBlock where
  name : String
  items : List Directive

/-- The `member-roles` blocks of a file. -/
abbrev ConfigFile := List (List RoleBlock)

namespace RoleBlock

def permissions (b : RoleBlock) : List Item :=
  b.items.flatMap fun | .permissions items => items | _ => []

/-- The values of the `inherit` items. -/
def inherits (b : RoleBlock) : List (Option String) :=
  (b.permissions.filter (·.name = .inherit)).map (·.value)

end RoleBlock

variable (cf : ConfigFile)

/-- Where `check_inheritance_loop` goes on from a name. -/
def nextInherit (name : String) : Option (Option String) :=
  (cf.flatten.find? (·.name = name)).bind (·.inherits.head?)

/-- `check_inheritance_loop`, with `9 - depth` for the depth. -/
def checkInheritanceLoop (cf : ConfigFile) (roleName : String) : ℕ → String → Bool
  | 0, _ => true
  | fuel + 1, inheritName =>
    roleName = inheritName ||
      match nextInherit cf inheritName with
      | none => false
      | some none => true -- `strcmp` of `NULL`: the test is not passed
      | some (some next) => checkInheritanceLoop cf roleName fuel next

def Item.ok (role : RoleBlock) (i : Item) : Bool :=
  match i.name with
  | .flag => i.value = some "yes" || i.value = some "no"
  | .canSet | .canUnset => i.value.isSome
  | .inherit => role.name ≠ "default" && i.value.any fun v =>
      v ≠ role.name && !checkInheritanceLoop cf role.name 9 v
  | .other => true

def once (values : List (Option String)) (ok : String → Bool) : Bool :=
  values.length = 1 && values.all (·.any ok)

/-- `member_roles_configtest` gives no error. -/
def memberRolesConfigtest (ce : List RoleBlock) : Bool :=
  ce.all fun role => role.permissions.all (·.ok cf role) && (role.name = "default" ||
    once (role.items.filterMap fun | .rolePrefix v => some v | _ => none) (·.utf8ByteSize = 1) &&
    once (role.items.filterMap fun | .rank v => some v | _ => none) (fun _ => true) &&
    once (role.items.filterMap fun | .mode v => some v | _ => none) (·.utf8ByteSize = 1))

def Accepted (files : List ConfigFile) : Prop :=
  ∀ cf ∈ files, ∀ ce ∈ cf, memberRolesConfigtest cf ce = true

instance (files : List ConfigFile) : Decidable (Accepted files) := by
  unfold Accepted
  infer_instance

/-- What inheritance needs of a role. -/
structure MemberRole where
  name : String
  inherit : Option String
deriving DecidableEq

/-- The role of a block: a later `inherit` replaces an earlier one. -/
def RoleBlock.role (b : RoleBlock) : MemberRole := ⟨b.name, b.inherits.getLast?.join⟩

variable (roles : List MemberRole)

/-- The roles that `member_roles_configrun` puts in front of the others. -/
def memberRolesConfigrun (ce : List RoleBlock) : List MemberRole :=
  ce.foldl (fun roles b => if b.name = "default" then roles else b.role :: roles) roles

/-- The roles after the given `member-roles` blocks. -/
def configRoles (blocks : List (List RoleBlock)) : List MemberRole :=
  blocks.foldl memberRolesConfigrun []

def findRoleByName (name : String) : Option MemberRole :=
  roles.find? (·.name = name)

/-- The role of the name `m` inherits from the name `n`. -/
def Inherits (m n : String) : Prop :=
  (findRoleByName roles m).bind (·.inherit) = some n

/-- What is wanted of a configuration, where `run` are the blocks up to a call of
`member_roles_configrun`. -/
structure Sound (files : List ConfigFile) : Prop where
  acyclic : ∀ run, run <+: files.flatten → ∀ n, ¬TransGen (Inherits (configRoles run)) n n
  defined : ∀ role ∈ configRoles files.flatten, ∀ n ∈ role.inherit,
    (findRoleByName (configRoles files.flatten) n).isSome
  /-- `resolve_role_inheritance`, which goes from a role to the one it inherits from and is called for
  every role at the end of each block, comes to an end without its depth limit. -/
  terminates : ∀ run, run <+: files.flatten → WellFounded fun n m => Inherits (configRoles run) m n

variable (blocks : List (List RoleBlock))

def roleBlocks : List RoleBlock :=
  (blocks.flatten.filter (·.name ≠ "default")).reverse

/-- The last block of the name `m` has `n` in its last `inherit`. -/
def Effective (m n : String) : Prop :=
  ((roleBlocks blocks).find? (·.name = m)).bind (·.role.inherit) = some n

/-- `check_inheritance_loop` goes from `m` to `n`. -/
def Followed (m n : String) : Prop := nextInherit cf m = some (some n)

/-- Every block inherits from a name that some block has, and every cycle, also one that a later
block breaks, is one that the check follows in a single file. -/
def CyclesFollowed (files : List ConfigFile) : Prop :=
  (∀ b ∈ roleBlocks files.flatten, ∀ n ∈ b.role.inherit,
      ∃ b' ∈ roleBlocks files.flatten, b'.name = n) ∧
    ∀ run, run <+: files.flatten → ∀ n, TransGen (Effective run) n n →
      ∃ cf ∈ files, TransGen (Followed cf) n n

variable {cf : ConfigFile} {files : List ConfigFile} {roles : List MemberRole} {m n : String}

/-- The role of the last block comes first. -/
theorem configRoles_eq : configRoles blocks = (roleBlocks blocks).map RoleBlock.role := by
  have hrun : ∀ (l : List RoleBlock) (roles : List MemberRole), memberRolesConfigrun roles l =
      (l.filter (·.name ≠ "default")).reverse.map RoleBlock.role ++ roles := by
    intro l
    induction l with
    | nil => exact fun _ => rfl
    | cons b l ih =>
      intro roles
      refine (ih _).trans ?_
      by_cases hb : b.name = "default"
      · simp [hb]
      · simp [hb]
  have hall : configRoles blocks = memberRolesConfigrun [] blocks.flatten :=
    foldl_flatten.symm
  rw [hall, hrun, append_nil, roleBlocks]

theorem findRoleByName_configRoles (n : String) : findRoleByName (configRoles blocks) n =
      ((roleBlocks blocks).find? (·.name = n)).map RoleBlock.role := by
  rw [configRoles_eq, findRoleByName, find?_map]
  rfl

theorem inherits_configRoles : Inherits (configRoles blocks) = Effective blocks := by
  funext m n
  rw [Inherits, findRoleByName_configRoles, Option.bind_map]
  rfl

/-- The check finds the role it started from, or gives up. -/
theorem checkInheritanceLoop_of_followed (h : ReflTransGen (Followed cf) m n) (fuel : ℕ) :
    checkInheritanceLoop cf n fuel m = true := by
  induction fuel generalizing m with
  | zero => rfl
  | succ fuel ih =>
    rcases h.cases_head with rfl | ⟨next, hnext, hrest⟩
    · simp [checkInheritanceLoop]
    · have hloop := ih hrest
      rw [Followed] at hnext
      simp [checkInheritanceLoop, hnext, hloop]

/-- The test refuses a file with a cycle that the check follows. -/
theorem not_followed_cycle (hpass : Accepted files) (hcf : cf ∈ files) :
    ¬TransGen (Followed cf) n n := by
  intro h
  obtain ⟨m, hm, hrest⟩ := TransGen.head'_iff.mp h
  -- the block of `n` that the check looks at has been tested itself
  obtain ⟨b, hfind, hhead⟩ := Option.bind_eq_some_iff.mp hm
  have hname : b.name = n := by simpa using find?_some hfind
  obtain ⟨ce, hce, hb⟩ := mem_flatten.mp (mem_of_find?_eq_some hfind)
  obtain ⟨i, hi, hvalue⟩ := mem_map.mp (mem_of_mem_head? hhead)
  have hinherit : i.name = .inherit := by simpa using (mem_filter.mp hi).2
  have htest := all_eq_true.mp (hpass cf hcf ce hce) b hb
  have hok := all_eq_true.mp (Bool.and_eq_true_iff.mp htest).1 i (mem_filter.mp hi).1
  have hloop := checkInheritanceLoop_of_followed hrest 9
  simp [Item.ok, hinherit, hvalue, hname, hloop] at hok

/-- Without a cycle among finitely many roles, the way from role to role ends. -/
theorem wellFounded_inherits (hacyclic : ∀ n, ¬TransGen (Inherits roles) n n) :
    WellFounded fun n m => Inherits roles m n := by
  have hstrict : IsStrictOrder String (flip (TransGen (Inherits roles))) :=
    { irrefl := hacyclic, trans := fun _ _ _ hab hbc => hbc.trans hab }
  -- the names of roles, and those they inherit from
  have hfinite : {n | n ∈ roles.map (·.name) ++ roles.filterMap (·.inherit)}.Finite :=
    List.finite_toSet _
  refine Subrelation.wf (fun {n m} h => ?_) (Set.wellFoundedOn_iff.mp
    (@Set.Finite.wellFoundedOn _ (flip (TransGen (Inherits roles))) hstrict _ hfinite))
  obtain ⟨role, hrole, hn⟩ := Option.bind_eq_some_iff.mp h
  have hmem := mem_of_find?_eq_some hrole
  have hname : role.name = m := by simpa using find?_some hrole
  exact ⟨.single h, mem_append_right _ (mem_filterMap.mpr ⟨role, hmem, hn⟩),
    mem_append_left _ (hname ▸ mem_map_of_mem hmem)⟩

/-- An accepted configuration has roles that inherit without a cycle and from defined roles only,
precisely if every name it inherits from is defined and the check follows every cycle. -/
theorem sound_iff (hpass : Accepted files) : Sound files ↔ CyclesFollowed files := by
  have hdefined : (∀ role ∈ configRoles files.flatten, ∀ n ∈ role.inherit,
      (findRoleByName (configRoles files.flatten) n).isSome) ↔
      ∀ b ∈ roleBlocks files.flatten, ∀ n ∈ b.role.inherit,
        ∃ b' ∈ roleBlocks files.flatten, b'.name = n := by
    simp only [findRoleByName_configRoles, Option.isSome_map, find?_isSome]
    rw [configRoles_eq]
    simp
  rw [CyclesFollowed, ← hdefined]
  simp only [← inherits_configRoles]
  constructor
  · intro h
    exact ⟨h.defined, fun run hrun n hn => absurd hn (h.acyclic run hrun n)⟩
  · rintro ⟨hdef, hcycles⟩
    have hacyclic : ∀ run, run <+: files.flatten →
        ∀ n, ¬TransGen (Inherits (configRoles run)) n n := by
      intro run hrun n hn
      obtain ⟨cf, hcf, hcycle⟩ := hcycles run hrun n hn
      exact not_followed_cycle hpass hcf hcycle
    exact ⟨hacyclic, hdef, fun run hrun => wellFounded_inherits (hacyclic run hrun)⟩

def inheritingBlock (name inherit : String) : RoleBlock :=
  ⟨name, [.rolePrefix (some "!"), .rank (some "1"), .mode (some "x"),
    .permissions [⟨.inherit, some inherit⟩]]⟩

def twoFiles : List ConfigFile := [[[inheritingBlock "a" "b"]], [[inheritingBlock "b" "a"]]]

/-- Two files that inherit from each other. -/
theorem sound_iff_twoFiles : Accepted twoFiles ∧ (Sound twoFiles ↔ CyclesFollowed twoFiles) := by
  have hpass : Accepted twoFiles := by decide +kernel
  exact ⟨hpass, sound_iff hpass⟩

/-- The two files are accepted with their cycle. -/
theorem twoFiles_cycle :
    Accepted twoFiles ∧ TransGen (Inherits (configRoles twoFiles.flatten)) "a" "a" := by
  have hab : Inherits (configRoles twoFiles.flatten) "a" "b" := by unfold Inherits; decide +kernel
  have hba : Inherits (configRoles twoFiles.flatten) "b" "a" := by unfold Inherits; decide +kernel
  exact ⟨by decide +kernel, .tail (.single hab) hba⟩

end ObbyIRCd.MemberRoles
