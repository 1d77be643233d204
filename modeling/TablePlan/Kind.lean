/-!
# Transformation kinds

Each kind of call is carried out by one operation of the table engine and has a default mode of
evaluation; only aggregation works on whole columns by default.
-/

namespace TablePlan

/-- How a function is invoked: once per row with scalars, or once with whole columns. -/
inductive Mode where
  | rowWise
  | columnWise
deriving DecidableEq

namespace Mode

/-- The name of a mode. -/
def name : Mode → String
  | rowWise => "row_wise"
  | columnWise => "column_wise"

/-- The mode with a name. -/
def ofName? (s : String) : Option Mode :=
  [rowWise, columnWise].find? fun m => m.name == s

@[simp] theorem ofName?_name (m : Mode) : ofName? m.name = some m := by
  cases m <;> rfl

end Mode

/-- What the table engine produces. -/
inductive Operation where
  | newTable
  | inPlace
  | grouped
  | aggregate
  | rowMask
  | rowMaskInPlace
  | ordering
  | orderingInPlace
  | dedupKey
deriving DecidableEq

namespace Operation

/-- The name of an operation. -/
def name : Operation → String
  | newTable => "new_table"
  | inPlace => "in_place"
  | grouped => "grouped"
  | aggregate => "aggregate"
  | rowMask => "row_mask"
  | rowMaskInPlace => "row_mask_in_place"
  | ordering => "ordering"
  | orderingInPlace => "ordering_in_place"
  | dedupKey => "dedup_key"

/-- All operations. -/
def all : List Operation :=
  [newTable, inPlace, grouped, aggregate, rowMask, rowMaskInPlace, ordering, orderingInPlace,
    dedupKey]

/-- The operation with a name. -/
def ofName? (s : String) : Option Operation :=
  all.find? fun o => o.name == s

@[simp] theorem ofName?_name (o : Operation) : ofName? o.name = some o := by
  cases o <;> rfl

end Operation

/-- What a transformation call does to its table. -/
inductive Kind where
  | transform
  | transformInPlace
  | select
  | selectInPlace
  | groupBy
  | combine
  | subset
  | subsetInPlace
  | sort
  | sortInPlace
  | unique
deriving DecidableEq

namespace Kind

/-- All kinds. -/
def all : List Kind :=
  [transform, transformInPlace, select, selectInPlace, groupBy, combine, subset, subsetInPlace,
    sort, sortInPlace, unique]

/-- The word that names a kind in a call. -/
def word : Kind → String
  | transform => "transform"
  | transformInPlace => "transform!"
  | select => "select"
  | selectInPlace => "select!"
  | groupBy => "groupby"
  | combine => "combine"
  | subset => "subset"
  | subsetInPlace => "subset!"
  | sort => "sort"
  | sortInPlace => "sort!"
  | unique => "unique"

/-- The name of a kind in a summary. -/
def name : Kind → String
  | transform => "transform"
  | transformInPlace => "transform_in_place"
  | select => "select"
  | selectInPlace => "select_in_place"
  | groupBy => "group_by"
  | combine => "combine"
  | subset => "subset"
  | subsetInPlace => "subset_in_place"
  | sort => "sort"
  | sortInPlace => "sort_in_place"
  | unique => "unique"

/-- The kind that a word names. -/
def ofWord? (s : String) : Option Kind :=
  all.find? fun k => k.word == s

@[simp] theorem ofWord?_word (k : Kind) : ofWord? k.word = some k := by
  cases k <;> rfl

/-- The kind with a name. -/
def ofName? (s : String) : Option Kind :=
  all.find? fun k => k.name == s

@[simp] theorem ofName?_name (k : Kind) : ofName? k.name = some k := by
  cases k <;> rfl

/-- The mode that functions of a call have unless a directive says otherwise. -/
def defaultMode : Kind → Mode
  | combine => .columnWise
  | _ => .rowWise

/-- The operation of the table engine. -/
def operation : Kind → Operation
  | transform | select => .newTable
  | transformInPlace | selectInPlace => .inPlace
  | groupBy => .grouped
  | combine => .aggregate
  | subset => .rowMask
  | subsetInPlace => .rowMaskInPlace
  | sort => .ordering
  | sortInPlace => .orderingInPlace
  | unique => .dedupKey

end Kind

end TablePlan
