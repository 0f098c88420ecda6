import RailsReview.Text.Case

/-!
# Singular and plural

Words are inflected by the first of a list of rules that applies. A rule asks for a stem and an
ending at the end of a word and exchanges the ending. Case does not matter for the test, and the
stem keeps the case it was written in. The rules see the whole word; the irregular words are looked
up for the part after the last slash or underscore only.
-/
namespace RailsReview.Inflection

/-- What stands before the ending. -/
inductive Stem where
  | letters (s : String)
  /-- One character that is none of these. -/
  | except (s : String)

inductive Rule where
  /-- Stem and ending close the word, and make up all of it when `whole` is set. -/
  | closing (whole : Bool) (stems : List Stem) (endings : List String) (replacement : String)
  /-- Stem and ending open the word; whatever follows is kept. -/
  | opening (stem ending replacement : String)

/-- What is left of `cs` after `start`, in any case. -/
def afterLetters? : List Char → List Char → Option (List Char)
  | [], cs => some cs
  | a :: as, c :: cs => if Text.sameLetter a c then afterLetters? as cs else none
  | _ :: _, [] => none

/-- What is left of the reversed word before the stem. -/
def Stem.before? (s : Stem) (reversed : List Char) : Option (List Char) :=
  match s, reversed with
  | .letters s, cs => afterLetters? s.toList.reverse cs
  | .except s, c :: rest => if s.toList.any (Text.sameLetter · c) then none else some rest
  | .except _, [] => none

/-- The reversed word without its ending, when a stem comes before it. -/
def withoutEnding? (whole : Bool) (stems : List Stem) (reversed : List Char) (ending : String) :
    Option (List Char) :=
  (afterLetters? ending.toList.reverse reversed).filter fun rest =>
    stems.any fun stem => (stem.before? rest).any fun left => !whole || left.isEmpty

/-- The inflected word, when the rule applies. -/
def Rule.inflected? (word : List Char) : Rule → Option (List Char)
  | .closing whole stems endings replacement =>
    (endings.findSome? (withoutEnding? whole stems word.reverse)).map fun rest =>
      rest.reverse ++ replacement.toList
  | .opening stem ending replacement =>
    (afterLetters? (stem ++ ending).toList word).map fun rest =>
      word.take stem.length ++ replacement.toList ++ rest

/-- The result of the first rule that applies. -/
def applyFirst (rules : List Rule) (word : List Char) : List Char :=
  (rules.findSome? (·.inflected? word)).getD word

def irregulars : List (String × String) :=
  [("person", "people"), ("man", "men"), ("child", "children"), ("sex", "sexes"),
   ("move", "moves"), ("zombie", "zombies")]

def uncountables : List String :=
  ["equipment", "information", "rice", "money", "species", "series", "fish", "sheep", "jeans",
   "police"]

def ends (stems : List String) (endings : List String) (replacement : String) : Rule :=
  .closing false (stems.map .letters) endings replacement

def whole (stems : List String) (endings : List String) (replacement : String) : Rule :=
  .closing true (stems.map .letters) endings replacement

def endsAfter (stems : List Stem) (endings : List String) (replacement : String) : Rule :=
  .closing false stems endings replacement

/-- A consonant, or the `u` of `qu`. -/
def consonant : List Stem := [.except "aeiouy", .letters "qu"]

def plurals : List Rule :=
  [ends ["quiz"] [""] "zes",
   whole ["oxen"] [""] "",
   whole ["ox"] [""] "en",
   whole ["m", "l"] ["ice"] "ice",
   whole ["m", "l"] ["ouse"] "ice",
   ends ["matr", "vert", "ind"] ["ix", "ex"] "ices",
   ends ["x", "ch", "ss", "sh"] [""] "es",
   endsAfter consonant ["y"] "ies",
   ends ["hive"] [""] "s",
   endsAfter [.except "f"] ["fe"] "ves",
   ends ["l", "r"] ["f"] "ves",
   ends [""] ["sis"] "ses",
   ends ["t", "i"] ["a"] "a",
   ends ["t", "i"] ["um"] "a",
   ends ["buffal", "tomat"] ["o"] "oes",
   ends ["bu"] ["s"] "ses",
   ends ["alias", "status"] [""] "es",
   ends ["octop", "vir"] ["us", "i"] "i",
   whole ["ax", "test"] ["is"] "es",
   ends [""] ["s"] "s",
   ends [""] [""] "s"]

def singulars : List Rule :=
  [ends ["database"] ["s"] "",
   ends ["quiz"] ["zes"] "",
   ends ["matr"] ["ices"] "ix",
   ends ["vert", "ind"] ["ices"] "ex",
   .opening "ox" "en" "",
   ends ["alias", "status"] ["es", ""] "",
   ends ["octop", "vir"] ["us", "i"] "us",
   whole ["a"] ["xis", "xes"] "xis",
   ends ["cris", "test"] ["is", "es"] "is",
   ends ["shoe"] ["s"] "",
   ends ["o"] ["es"] "",
   ends ["bus"] ["es", ""] "",
   whole ["m", "l"] ["ice"] "ouse",
   ends ["x", "ch", "ss", "sh"] ["es"] "",
   ends ["m"] ["ovies"] "ovie",
   ends ["s"] ["eries"] "eries",
   endsAfter consonant ["ies"] "y",
   ends ["l", "r"] ["ves"] "f",
   ends ["tive"] ["s"] "",
   ends ["hive"] ["s"] "",
   endsAfter [.except "f"] ["ves"] "fe",
   whole ["analy"] ["sis", "ses"] "sis",
   ends ["analy", "ba", "diagno", "parenthe", "progno", "synop", "the"] ["sis", "ses"] "sis",
   ends ["t", "i"] ["a"] "um",
   ends ["n"] ["ews"] "ews",
   ends ["ss"] [""] "",
   ends [""] ["s"] ""]

def isSeparator (c : Char) : Bool := c == '/' || c == '_'

/-- The word up to and with its last separator, and the rest. -/
def lastSegment (word : List Char) : List Char × List Char :=
  let back := word.reverse
  ((back.dropWhile (!isSeparator ·)).reverse, (back.takeWhile (!isSeparator ·)).reverse)

def isUncountable (word : List Char) : Bool :=
  uncountables.contains (String.ofList (word.flatMap Text.toLower))

/-- Inflects a word by a look-up for its last segment, or else by the rules. -/
def inflect (irregular? : String → Option String) (rules : List Rule) (word : String) : String :=
  let cs := word.toList
  if cs.isEmpty || isUncountable cs then word
  else
    let (before, last) := lastSegment cs
    match irregular? (String.ofList last) with
    | some form => String.ofList before ++ form
    | none => String.ofList (applyFirst rules cs)

def irregularPlural? (word : String) : Option String :=
  (irregulars.find? fun p => p.1 == word || p.2 == word).map (·.2)

def irregularSingular? (word : String) : Option String :=
  (irregulars.find? fun p => p.1 == word || p.2 == word).map (·.1)

def pluralize : String → String := inflect irregularPlural? plurals

def singularize : String → String := inflect irregularSingular? singulars

end RailsReview.Inflection
