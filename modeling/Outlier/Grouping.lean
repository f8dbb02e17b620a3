import Outlier.Grouping.Merge

/-! # Grouping anomalies by a trigger condition

A leaf selects candidates by the name of their component, an operator merges the selections of its
sides (`Arena.evaluate`). The items that remain are written out as a `Grouping`: group anomalies
that own copies of their members, a flat list of all members, and the candidates that were
selected but belong to no group. -/

namespace Outlier

/-! ### Evaluation -/

namespace Arena

/-- Does the name of the anomaly's component start with `stem`? -/
def hasStem (stem : String) (a : Anomaly) : Bool :=
  a.component?.any fun name => stem.toList.isPrefixOf name.toList

/-- The candidates of the components whose name starts with `stem`, in input order. -/
def select (a : Arena) (stem : String) : List Item :=
  ((List.range a.candidates.size).filter fun i => hasStem stem (a.candidate i)).map .candidate

/-- The items that an expression leaves, left side first. -/
def evaluate (a : Arena) : Expression → Arena × List Item
  | .leaf stem => (a, a.select stem)
  | .join op l r =>
    let (a, left) := a.evaluate l
    let (a, right) := a.evaluate r
    a.merge op left right

/-! ### Writing out -/

/-- The group anomaly for a group, with all that lies below it. Members of a group were there before
it, which is why the recursion ends. -/
def tree (a : Arena) (g : Nat) (isChild : Bool) : Anomaly :=
  let d := a.draft g
  { Anomaly.synthetic d.span.start d.span.stop with
    isChild := isChild
    children := d.members.map fun
      | .candidate i => (a.candidate i).asChild
      | .group h => if h < g then a.tree h true else default }
termination_by g

/-- The group anomaly for a nested group by its span alone. -/
def outline (a : Arena) (g : Nat) : Anomaly :=
  let d := a.draft g
  { Anomaly.synthetic d.span.start d.span.stop with isChild := true }

/-- The items listed so far and the anomalies written for them. -/
structure Listing where
  seen : List Item := []
  listed : List Anomaly := []

/-- Add all items below a group to a listing, each once and a group before its members. -/
def listBelow (a : Arena) (g : Nat) (l : Listing) : Listing :=
  (a.draft g).members.foldl (fun l x =>
    if x ∈ l.seen then l
    else match x with
      | .candidate i => ⟨x :: l.seen, l.listed ++ [(a.candidate i).asChild]⟩
      | .group h =>
        let l : Listing := ⟨x :: l.seen, l.listed ++ [a.outline h]⟩
        if h < g then a.listBelow h l else l) l
termination_by g

/-- Add all items below an item that remains to a listing. -/
def listItem (a : Arena) (l : Listing) : Item → Listing
  | .group g => a.listBelow g l
  | .candidate _ => l

end Arena

/-! ### Results -/

/-- What a grouping pass gives. -/
structure Grouping where
  /-- The group anomalies that lie inside no other. -/
  groups : List Anomaly := []
  /-- Everything below the groups, each item once; nested groups stand here by their span alone. -/
  children : List Anomaly := []
  /-- Selected anomalies that belong to no group. -/
  ungrouped : List Anomaly := []
  /-- There were too many candidates, and `ungrouped` holds them all. -/
  bypassed : Bool := false
  deriving DecidableEq, Inhabited

namespace Grouping

/-- Write out the items that remain. -/
def ofItems (a : Arena) (items : List Item) : Grouping where
  groups := items.filterMap fun
    | .group g => some (a.tree g false)
    | .candidate _ => none
  children := (items.foldl a.listItem {}).listed
  ungrouped := items.filterMap fun
    | .candidate i => some (a.candidate i)
    | .group _ => none

/-- Groups, then what is below them, then the rest. -/
def flat (g : Grouping) : List Anomaly := g.groups ++ g.children ++ g.ungrouped

/-- The anomalies to be shown on their own. -/
def topLevel (g : Grouping) : List Anomaly := g.groups ++ g.ungrouped

/-- The numbers of the stored anomalies below the groups, in ascending order. -/
def childIds (g : Grouping) : List UInt64 :=
  ((g.children.filterMap (·.id)).mergeSort (· ≤ ·)).eraseDups

end Grouping

/-- A trigger condition together with the greatest number of candidates it is applied to. -/
structure Grouper where
  expression : Expression
  maxCandidates : Nat := 1000

namespace Grouper

/-- Group the candidates, unless there are too many. -/
def run (g : Grouper) (candidates : List Anomaly) : Grouping :=
  if g.maxCandidates < candidates.length then { ungrouped := candidates, bypassed := true }
  else
    let (arena, items) := Arena.evaluate { candidates := candidates.toArray } g.expression
    Grouping.ofItems arena items

/-- Group the candidates into one list. -/
def runFlat (g : Grouper) (candidates : List Anomaly) : List Anomaly := (g.run candidates).flat

end Grouper
end Outlier
