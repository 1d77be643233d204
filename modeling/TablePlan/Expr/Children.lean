import TablePlan.Expr.Basic

/-!
# The parts of an expression

`children` and `mapChildren` see the same direct parts in the same order. `nodes` lists a whole
tree, parents before their children; `substitute` replaces the outermost nodes that a function
answers for and rebuilds everything around them.
-/

namespace TablePlan.Expr

/-- The direct parts of an expression in the order they are written. -/
def children : Expr → List Expr
  | literal _ | ident _ | column _ | splat _ => []
  | interpolated inner | directed _ inner => [inner]
  | unary _ operand _ => [operand]
  | call _ args _ => args
  | binary _ left right _ => [left, right]
  | index base indices => base :: indices
  | conditional cond yes no => [cond, yes, no]
  | vector items | tuple items | block items => items
  | matrix rows => rows.flatten
  | record fields => fields.map Prod.snd
  | assign target value => [target, value]

/-- The expression with every direct part replaced by an action on it, from left to right. -/
def mapChildren {m : Type → Type} [Monad m] (f : Expr → m Expr) : Expr → m Expr
  | interpolated inner => interpolated <$> f inner
  | call func args dotted => return call func (← args.mapM f) dotted
  | binary op left right dotted => return binary op (← f left) (← f right) dotted
  | unary op operand dotted => return unary op (← f operand) dotted
  | index base indices => return index (← f base) (← indices.mapM f)
  | conditional cond yes no => return conditional (← f cond) (← f yes) (← f no)
  | vector items => vector <$> items.mapM f
  | matrix rows => matrix <$> rows.mapM (·.mapM f)
  | tuple items => tuple <$> items.mapM f
  | record fields => record <$> fields.mapM fun field => return (field.1, ← f field.2)
  | assign target value => return assign (← f target) (← f value)
  | directed letters inner => directed letters <$> f inner
  | block statements => block <$> statements.mapM f
  | leaf => pure leaf

mutual

/-- Every node of an expression, parents first and parts from left to right. -/
def nodes : Expr → List Expr
  | e@(literal _) | e@(ident _) | e@(column _) | e@(splat _) => [e]
  | e@(interpolated inner) | e@(directed _ inner) => e :: inner.nodes
  | e@(unary _ operand _) => e :: operand.nodes
  | e@(call _ args _) => e :: nodesOfItems args
  | e@(binary _ left right _) => e :: (left.nodes ++ right.nodes)
  | e@(index base indices) => e :: (base.nodes ++ nodesOfItems indices)
  | e@(conditional cond yes no) => e :: (cond.nodes ++ yes.nodes ++ no.nodes)
  | e@(vector items) | e@(tuple items) | e@(block items) => e :: nodesOfItems items
  | e@(matrix rows) => e :: nodesOfRows rows
  | e@(record fields) => e :: nodesOfFields fields
  | e@(assign target value) => e :: (target.nodes ++ value.nodes)

/-- Every node of several expressions. -/
def nodesOfItems : List Expr → List Expr
  | [] => []
  | item :: rest => item.nodes ++ nodesOfItems rest

/-- Every node of the rows of a matrix. -/
def nodesOfRows : List (List Expr) → List Expr
  | [] => []
  | row :: rest => nodesOfItems row ++ nodesOfRows rest

/-- Every node of the fields of a record. -/
def nodesOfFields : List (String × Expr) → List Expr
  | [] => []
  | (_, value) :: rest => value.nodes ++ nodesOfFields rest

end

/-- The first node that passes a test. -/
def find? (test : Expr → Bool) (e : Expr) : Option Expr :=
  e.nodes.find? test

mutual

/-- Replace the outermost nodes that `f` has an answer for, from left to right. -/
def substitute {m : Type → Type} [Monad m] (f : Expr → Option (m Expr)) (e : Expr) : m Expr :=
  match f e with
  | some answer => answer
  | none =>
    match e with
    | interpolated inner => interpolated <$> substitute f inner
    | call func args dotted => return call func (← substituteItems f args) dotted
    | binary op left right dotted =>
      return binary op (← substitute f left) (← substitute f right) dotted
    | unary op operand dotted => return unary op (← substitute f operand) dotted
    | index base indices => return index (← substitute f base) (← substituteItems f indices)
    | conditional cond yes no =>
      return conditional (← substitute f cond) (← substitute f yes) (← substitute f no)
    | vector items => vector <$> substituteItems f items
    | matrix rows => matrix <$> substituteRows f rows
    | tuple items => tuple <$> substituteItems f items
    | record fields => record <$> substituteFields f fields
    | assign target value => return assign (← substitute f target) (← substitute f value)
    | directed letters inner => directed letters <$> substitute f inner
    | block statements => block <$> substituteItems f statements
    | leaf => pure leaf

/-- Substitute in several expressions from left to right. -/
def substituteItems {m : Type → Type} [Monad m] (f : Expr → Option (m Expr)) :
    List Expr → m (List Expr)
  | [] => pure []
  | item :: rest => return (← substitute f item) :: (← substituteItems f rest)

/-- Substitute in the rows of a matrix from first to last. -/
def substituteRows {m : Type → Type} [Monad m] (f : Expr → Option (m Expr)) :
    List (List Expr) → m (List (List Expr))
  | [] => pure []
  | row :: rest => return (← substituteItems f row) :: (← substituteRows f rest)

/-- Substitute in the fields of a record from first to last. -/
def substituteFields {m : Type → Type} [Monad m] (f : Expr → Option (m Expr)) :
    List (String × Expr) → m (List (String × Expr))
  | [] => pure []
  | (name, value) :: rest => return (name, ← substitute f value) :: (← substituteFields f rest)

end

end TablePlan.Expr
