import RailsReview.Check.Run

/-!
# Declared checks

A declared check is given as a list of actions instead of handlers. It counts the actions it has
carried out, and its notes record where that happened.
-/
namespace RailsReview

/-- When an action takes place. -/
inductive Moment where
  | node (phase : Phase) (kind : Kind)
  | text
  | atEnd

namespace Moment

def name : Moment → String
  | node .enter _ => "enter"
  | node .exit _ => "exit"
  | text => "text"
  | atEnd => "after"

def kindTag : Moment → String
  | node _ k => k.tag
  | _ => ""

end Moment

inductive Deed where
  | log
  | report
  | reportAt (file : Path) (line : Nat)
  | reportLines (file : Path) (lines : List Nat)
  | fail
  /-- Fails when the message is no regular expression. -/
  | requirePattern
  | addRoute
  | reportRoutes

structure Action where
  moment : Moment
  deed : Deed
  /-- The label that has to be met. -/
  label? : Option String
  message? : Option String

/-- What a declared check leaves when it logs. -/
structure LogNote where
  check : String
  count : Nat
  moment : Moment
  site : Site
  label : String

structure Declaration where
  name : String
  url : Option String
  kinds : List Kind
  files : List FilePattern
  ignored : List FilePattern
  actions : List Action

namespace Declaration

/-- The first text that a node or one of its names has. -/
def labelOf (n : Node) : String :=
  ([n.text, Node.textOf n.message?, Node.textOf n.methodName?, Node.textOf n.className?,
    Node.textOf n.moduleName?].find? (· ≠ "")).getD ""

def perform [PatternLanguage] (check : String) (a : Action) (label : String) (site : Site)
    (count : Nat) (t : Tables) : Effect LogNote Nat :=
  let message := a.message?.getD label
  match a.deed with
  | .log => { state := count, tables := t, notes := [⟨check, count, a.moment, site, label⟩] }
  | .report => { state := count, tables := t, findings := [site.finding message] }
  | .reportAt file line => { state := count, tables := t, findings := [⟨message, file, [line]⟩] }
  | .reportLines file lines => { state := count, tables := t, findings := [⟨message, file, lines⟩] }
  | .fail => { state := count, tables := t, failure := some (.message message) }
  | .requirePattern =>
    { state := count, tables := t
      failure := if (PatternLanguage.parse? message).isSome then none
        else some (.pattern (.regex message)) }
  | .addRoute => { state := count, tables := { t with routes := t.routes.add [] message "index" } }
  | .reportRoutes =>
    { state := count, tables := t
      findings := [site.finding (" ".intercalate (t.routes.routes.map Route.text))] }

/-- Carries the action out, and counts it, unless it waits for another label. -/
def handler [PatternLanguage] {α : Type} (check : String) (a : Action) (labelOf : α → String) :
    Handler LogNote Nat α :=
  fun site x count t =>
    let label := labelOf x
    if a.label?.all (· == label) then perform check a label site (count + 1) t
    else { state := count, tables := t }

def addAction [PatternLanguage] (check : String) (s : Spec LogNote Nat) (a : Action) :
    Spec LogNote Nat :=
  match a.moment with
  | .node phase k => s.on phase k (handler check a labelOf)
  | .text => s.withText (handler check a id)
  | .atEnd => s.withEnd (handler check a fun _ => "")

def check [PatternLanguage] (d : Declaration) : Check LogNote :=
  let start : Spec LogNote Nat :=
    { name := d.name, url := d.url, files := d.files, ignored := d.ignored }
  ⟨d.actions.foldl (addAction d.name) (start.interestedIn d.kinds), 0, []⟩

end Declaration

end RailsReview
