/-
# What a strike leaves of a document

A strike replaces strings and nothing else, but a member's name is a string too: two names
that are struck to the same text are one name, and one of their members is lost.
-/

import SeverinoHQ.ControlPlane.SecretShapes

namespace SeverinoHQ.ControlPlane.SecretShapes

open SeverinoHQ.Math

universe u

variable {ν : Type u} {unicode : Unicode} {declared : List String}

/-! ## The structure of a document -/

section Structure

mutual

/-- As many members and items at every depth, and every value that is no string the same. -/
def SameStructure : Document ν → Document ν → Prop
  | .str _, .str _ => True
  | .arr items, .arr others => SameItems items others
  | .obj members, .obj others => SameMembers members others
  | .null, .null => True
  | .bool value, .bool other => value = other
  | .num value, .num other => value = other
  | _, _ => False

def SameItems : List (Document ν) → List (Document ν) → Prop
  | [], [] => True
  | item :: items, other :: others => SameStructure item other ∧ SameItems items others
  | _, _ => False

def SameMembers : List (String × Document ν) → List (String × Document ν) → Prop
  | [], [] => True
  | member :: members, other :: others =>
      SameStructure member.2 other.2 ∧ SameMembers members others
  | _, _ => False

end

/-- A member's name, struck. -/
def struckName (unicode : Unicode) (name : String) : String := (text unicode [] name).1

mutual

/-- No two members of an object, at any depth, have names that are struck to one. -/
def NamesApart (unicode : Unicode) : Document ν → Prop
  | .arr items => ItemsApart unicode items
  | .obj members =>
      (members.map fun member => struckName unicode member.1).Nodup ∧ MembersApart unicode members
  | _ => True

def ItemsApart (unicode : Unicode) : List (Document ν) → Prop
  | [] => True
  | item :: items => NamesApart unicode item ∧ ItemsApart unicode items

def MembersApart (unicode : Unicode) : List (String × Document ν) → Prop
  | [] => True
  | member :: members => NamesApart unicode member.2 ∧ MembersApart unicode members

end

theorem SameMembers.length_eq {members others : List (String × Document ν)}
    (h : SameMembers members others) : members.length = others.length := by
  induction members generalizing others with
  | nil =>
      cases others with
      | nil => rfl
      | cons => simp [SameMembers] at h
  | cons member members ih =>
      cases others with
      | nil => simp [SameMembers] at h
      | cons other others =>
          rw [SameMembers] at h
          simp [ih h.2]

theorem map_fst_struckMembers (within : Bool) (path : List Step)
    (members : List (String × Document ν)) :
    (struckMembers unicode declared within path members).1.map Prod.fst =
      members.map fun member => struckName unicode member.1 := by
  induction members with
  | nil => simp [struckMembers]
  | cons member members ih =>
      obtain ⟨name, value⟩ := member
      simp only [struckMembers, List.map_cons, ih]
      rfl

mutual

theorem struckNode_same (within : Bool) (path : List Step) :
    ∀ value : Document ν,
      SameStructure value (struckNode unicode declared within path value).1 ↔
        NamesApart unicode value
  | .null => by simp [struckNode, SameStructure, NamesApart]
  | .bool value => by simp [struckNode, SameStructure, NamesApart]
  | .num value => by simp [struckNode, SameStructure, NamesApart]
  | .str value => by cases within <;> simp [struckNode, SameStructure, NamesApart]
  | .arr items => by
      simp only [struckNode, SameStructure, NamesApart]
      exact struckItems_same within path 0 items
  | .obj members => by
      simp only [struckNode, SameStructure, NamesApart]
      have hnames := @map_fst_struckMembers _ unicode declared within path members
      by_cases hapart : (members.map fun member => struckName unicode member.1).Nodup
      · rw [Dict.collect_of_nodup (hnames ▸ hapart)]
        simp only [hapart, true_and]
        exact struckMembers_same within path members
      · have hlength : (struckMembers unicode declared within path members).1.length =
            members.length := by simpa using congrArg List.length hnames
        simp only [hapart, false_and, iff_false]
        intro hsame
        have hkept := Dict.length_collect.mp (hlength ▸ hsame.length_eq.symm)
        exact hapart (hnames ▸ hkept)

theorem struckItems_same (within : Bool) (path : List Step) (index : Nat) :
    ∀ items : List (Document ν),
      SameItems items (struckItems unicode declared within path index items).1 ↔
        ItemsApart unicode items
  | [] => by simp [struckItems, SameItems, ItemsApart]
  | item :: items => by
      simp only [struckItems, SameItems, ItemsApart]
      exact and_congr (struckNode_same within _ item) (struckItems_same within path _ items)

theorem struckMembers_same (within : Bool) (path : List Step) :
    ∀ members : List (String × Document ν),
      SameMembers members (struckMembers unicode declared within path members).1 ↔
        MembersApart unicode members
  | [] => by simp [struckMembers, SameMembers, MembersApart]
  | (name, value) :: members => by
      simp only [struckMembers, SameMembers, MembersApart]
      exact and_congr (struckNode_same _ _ value) (struckMembers_same within path members)

end

/-- A strike keeps the structure of a document exactly when it leaves no two members of an
object one name. -/
theorem struck_same_iff (value : Document ν) :
    SameStructure value (struck unicode declared value).1 ↔ NamesApart unicode value :=
  struckNode_same false [] value

/-- ASCII alone, lowered as it is. -/
def sampleUnicode : Unicode := ⟨fun _ => false, fun value => String.ofList (value.toList.map Char.toLower)⟩

/-- A GitHub token, of one letter. -/
def sampleToken (letter : Char) : String := "ghp_" ++ String.ofList (List.replicate 30 letter)

/-- Two members named by tokens become one. -/
theorem named_by_tokens_lost :
    ¬∀ (unicode : Unicode) (declared : List String) (value : Document Nat),
      SameStructure value (struck unicode declared value).1 := by
  intro h
  have hone : struckName sampleUnicode (sampleToken 'a') = struckName sampleUnicode (sampleToken 'b') := by
    decide
  have hsame := (struckNode_same false [] _).mp (h sampleUnicode []
    (.obj [(sampleToken 'a', .num 1), (sampleToken 'b', .num 2)]))
  simp [NamesApart, hone] at hsame

end Structure

end SeverinoHQ.ControlPlane.SecretShapes
