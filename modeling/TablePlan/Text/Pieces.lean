/-!
# Finding, splitting and replacing parts of a text

Occurrences are found from the left and do not overlap. An empty pattern occurs at both ends of a
text and between any two of its characters, so splitting at it leaves an empty piece on either
side and replacing it inserts at every such place.
-/

namespace TablePlan.Text

/-! ### Properties of every character

What every character of a text is to satisfy is decided by going through the text. Without these
instances a search through all characters there are may be found first.
-/

section

variable (p : Char → Prop) [DecidablePred p]

instance (priority := 1100) decidableForallMem (cs : List Char) : Decidable (∀ c ∈ cs, p c) :=
  List.decidableBAll p cs

instance (priority := 1100) decidableForallFirst (first : Option Char) :
    Decidable (∀ c ∈ first, p c) :=
  Option.decidableForallMem first

end

/-! ### Joining, splitting and replacing -/

/-- The texts one after another with `separator` between neighbours. -/
def joinWith (separator : String) : List String → String
  | [] => ""
  | [s] => s
  | s :: rest => s ++ separator ++ joinWith separator rest

@[simp] theorem joinWith_nil (separator : String) : joinWith separator [] = "" := rfl

@[simp] theorem joinWith_singleton (separator s : String) : joinWith separator [s] = s := rfl

@[simp] theorem joinWith_cons_cons (separator s t : String) (rest : List String) :
    joinWith separator (s :: t :: rest) = s ++ separator ++ joinWith separator (t :: rest) := rfl

/-- Texts with a separator between them, as characters. -/
theorem toList_joinWith (separator s : String) (rest : List String) :
    (joinWith separator (s :: rest)).toList
      = s.toList ++ rest.flatMap fun t => separator.toList ++ t.toList := by
  induction rest generalizing s with
  | nil => simp
  | cons t rest ih => simp [ih]

/-- The pieces with `c` put in front of the first one. -/
def consPiece (c : Char) : List (List Char) → List (List Char)
  | [] => [[c]]
  | piece :: pieces => (c :: piece) :: pieces

/-- The pieces between the occurrences of `pattern`, which is not empty, after `skip` characters
of an occurrence are still to be passed over. -/
def splitFrom (pattern : List Char) : Nat → List Char → List (List Char)
  | _, [] => [[]]
  | skip + 1, _ :: rest => splitFrom pattern skip rest
  | 0, c :: rest =>
    if pattern.isPrefixOf (c :: rest) then [] :: splitFrom pattern (pattern.length - 1) rest
    else consPiece c (splitFrom pattern 0 rest)

/-- The pieces of a text between the occurrences of `pattern`. -/
def splitChars (pattern cs : List Char) : List (List Char) :=
  if pattern.isEmpty then [] :: cs.map (fun c => [c]) ++ [[]] else splitFrom pattern 0 cs

/-- The text with `insert` for every occurrence of `pattern`, which is not empty, after `skip`
characters of an occurrence are still to be passed over. -/
def replaceFrom (pattern insert : List Char) : Nat → List Char → List Char
  | _, [] => []
  | skip + 1, _ :: rest => replaceFrom pattern insert skip rest
  | 0, c :: rest =>
    if pattern.isPrefixOf (c :: rest) then
      insert ++ replaceFrom pattern insert (pattern.length - 1) rest
    else c :: replaceFrom pattern insert 0 rest

/-- The text with `insert` for every occurrence of `pattern`. -/
def replaceChars (pattern insert cs : List Char) : List Char :=
  if pattern.isEmpty then insert ++ cs.flatMap (fun c => c :: insert)
  else replaceFrom pattern insert 0 cs

/-- The pieces of `s` between the occurrences of `pattern`. -/
def split (s pattern : String) : List String :=
  (splitChars pattern.toList s.toList).map String.ofList

/-- `s` with `insert` for every occurrence of `pattern`. -/
def replace (s pattern insert : String) : String :=
  String.ofList (replaceChars pattern.toList insert.toList s.toList)

/-- Whether `s` begins with `part`. -/
def beginsWith (s part : String) : Bool :=
  part.toList.isPrefixOf s.toList

/-- Whether `s` ends with `part`. -/
def endsWith (s part : String) : Bool :=
  part.toList.isSuffixOf s.toList

/-- Whether `part` occurs in the characters. -/
def occursIn (part : List Char) : List Char → Bool
  | [] => part.isEmpty
  | c :: rest => part.isPrefixOf (c :: rest) || occursIn part rest

/-- Whether `part` occurs in `s`. -/
def includes (s part : String) : Bool :=
  occursIn part.toList s.toList

end TablePlan.Text
