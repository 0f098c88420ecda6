import RailsReview.Proofs.Alone
import RailsReview.Proofs.UnindexedKeys
import RailsReview.Survey.Project

/-!
# The table of a column

Two checks read the columns of a schema. The survey goes by the block that a call stands in, the
review of keys by the command `create_table` that it has entered last. They agree on the calls in a
block that begins with such a command, and on the calls before the first one.
-/
namespace RailsReview

namespace Schema
open Node

/-- A block that creates a table. -/
def isTableBlock (n : Node) : Bool := n.kind == .methodAddBlock && Survey.createsTable n

/-- The command that creates a table, written without parentheses. -/
def isTableCommand (n : Node) : Bool := n.kind == .command && n.messageText == "create_table"

/-- The table of the block that a node stands in. -/
def blockTable? (outer : List Node) : Option String := (outer.find? isTableBlock).map tableName

/-- The table of the last one of some nodes that is a command to create one. -/
def lastTable? (nodes : List Node) : Option String :=
  (nodes.reverse.find? isTableCommand).map tableName

/-- The nodes that calls have entered. -/
def enteredBy (made : List (List Node × Call)) : List Node :=
  (made.filterMap Call.occurrence?).map (·.2)

/-- A block that begins with the command to create its table, and creates no other. -/
structure BeginsTable (b : Node) : Prop where
  head : ∃ head, b.slot? 0 = some head ∧ head.kind = .command
  own : ∀ x ∈ occurrencesIn [] b.slots, isTableCommand x.2 → tableName x.2 = tableName b

theorem lastTable?_cons (n : Node) (nodes : List Node) : lastTable? (n :: nodes) =
    (lastTable? nodes).or (if isTableCommand n then some (tableName n) else none) := by
  rw [lastTable?, List.reverse_cons, List.find?_append, Option.map_or, List.find?_singleton]
  congr 1
  split
  · rfl
  · rfl

theorem lastTable?_append (nodes nodes' : List Node) :
    lastTable? (nodes ++ nodes') = (lastTable? nodes').or (lastTable? nodes) := by
  rw [lastTable?, List.reverse_append, List.find?_append, Option.map_or]
  rfl

/-- If some commands create a table and always this one, it is the last one that was created. -/
theorem lastTable?_eq_some {nodes : List Node} {table : String}
    (hsome : ∃ n ∈ nodes, isTableCommand n)
    (hown : ∀ n ∈ nodes, isTableCommand n → tableName n = table) :
    lastTable? nodes = some table := by
  obtain ⟨n, hn, hcommand⟩ := hsome
  rcases hlast : nodes.reverse.find? isTableCommand with _ | last
  · exact absurd hcommand (List.find?_eq_none.1 hlast n (List.mem_reverse.2 hn))
  · rw [lastTable?, hlast, Option.map_some,
      hown last (List.mem_reverse.1 (List.mem_of_find?_eq_some hlast)) (List.find?_some hlast)]

theorem BeginsTable.exists_head {b : Node} (h : BeginsTable b) (hblock : isTableBlock b) :
    ∃ head rest, b.slots = .node head :: rest ∧ isTableCommand head := by
  obtain ⟨head, hhead, hcommand⟩ := h.head
  obtain ⟨k, slots, p, own⟩ := b
  obtain ⟨hkind, hcreates⟩ := Bool.and_eq_true_iff.1 hblock
  obtain rfl : k = .methodAddBlock := eq_of_beq hkind
  match slots with
  | .node first :: rest =>
    obtain rfl : first = head := Option.some.inj hhead
    have hmessage : first.messageText == "create_table" := hcreates
    exact ⟨first, rest, rfl, by rw [isTableCommand, hcommand, hmessage]; rfl⟩
  | [] | .literal _ :: _ | .absent :: _ => cases hhead

/-- A call in a block that begins with its command has that command before it, and no other. -/
theorem BeginsTable.lastTable?_enteredBy {file : Path} {b call : Node} {outer : List Node}
    {made : List (List Node × Call)} (h : BeginsTable b) (hblock : isTableBlock b)
    (hkind : call.kind = .commandCall)
    (hinside : Call.Inside file b made (outer, .node .enter file call)) :
    lastTable? (enteredBy made) = some (tableName b) := by
  obtain ⟨before, around, inner, later, rfl, hcalls⟩ := hinside
  obtain ⟨head, rest, hslots, hhead⟩ := h.exists_head hblock
  have hown : ∀ n ∈ enteredBy inner, isTableCommand n → tableName n = tableName b := by
    intro n hn
    have hall : n ∈ (occurrencesIn [] b.slots).map (·.2) := by
      rw [nodes_occurrencesIn [] (b :: around), ← Call.around_occurrencesIn file, hcalls,
        List.filterMap_append, List.map_append]
      exact List.mem_append_left _ hn
    obtain ⟨x, hx, rfl⟩ := List.mem_map.1 hall
    exact h.own x hx
  -- The head is the first node of the block, and the call is another one.
  have hfirst : head ∈ enteredBy inner := by
    rw [hslots, Call.aroundSlots] at hcalls
    obtain ⟨k, slots, p, own⟩ := head
    rw [Call.around] at hcalls
    cases inner with
    | nil =>
      cases (List.cons.inj hcalls).1
      rw [isTableCommand, hkind] at hhead
      cases hhead
    | cons x inner =>
      cases (List.cons.inj hcalls).1
      exact .head _
  have hlast := lastTable?_eq_some ⟨head, hfirst, hhead⟩ hown
  have hentered : enteredBy (before ++ (around, .node .enter file b) :: inner) =
      enteredBy before ++ b :: enteredBy inner := by
    rw [enteredBy, List.filterMap_append, List.map_append]
    rfl
  rw [hentered, lastTable?_append, lastTable?_cons, hlast]
  rfl

end Schema

namespace Practice
open Schema Node
variable {ν : Type}

namespace SchemaScope

/-- Reads a call as a call on this table. -/
def readFor (site : Site) (n : Node) (table? : Option String) (s : SchemaScope) : SchemaScope :=
  table?.elim s fun table =>
    if n.messageText = "index" then s.addIndex table (listOf n.callArguments.head?)
    else (Schema.columns n).foldl (declare site n table) s

theorem readCall_eq_readFor (site : Site) (n : Node) (s : SchemaScope) :
    s.readCall site n = s.readFor site n s.table? := by
  rw [readCall, readFor]
  cases s.table? with
  | none => rfl
  | some table => rfl

section Table
variable (site : Site) (n : Node) (table : String) (s : SchemaScope)

theorem table?_addIndex (columns : List String) :
    (s.addIndex table columns).table? = s.table? := by
  rw [addIndex]
  split
  · rfl
  · rfl

theorem table?_addColumn (c : KeyColumn) : (s.addColumn c).table? = s.table? := rfl

theorem table?_declare (c : Column) : (declare site n table s c).table? = s.table? := by
  have hcolumns (types : List String) (column : String → KeyColumn) (s' : SchemaScope) :
      (types.foldl (fun s t => s.addColumn (column t)) s').table? = s'.table? := by
    induction types generalizing s' with
    | nil => rfl
    | cons t types ih => exact ih _
  unfold declare
  split
  · rfl
  · split
    · rfl
    · dsimp only
      rw [table?_addColumn]
      split
      · rw [table?_addIndex, hcolumns]
      · rw [hcolumns]

theorem table?_readCall : (s.readCall site n).table? = s.table? := by
  have hcolumns (columns : List Column) (table : String) (s' : SchemaScope) :
      (columns.foldl (declare site n table) s').table? = s'.table? := by
    induction columns generalizing s' with
    | nil => rfl
    | cons c columns ih => rw [List.foldl_cons, ih, table?_declare]
  rw [readCall]
  split
  · rfl
  · split
    · rw [table?_addIndex]
    · rw [hcolumns]

/-- Only the command to create a table changes the table that calls are read for. -/
theorem table?_follow (file : Path) : (s.follow file n).table? =
    if isTableCommand n then some (tableName n) else s.table? := by
  unfold follow isTableCommand
  split
  · rename_i hkind
    rw [hkind, beq_self_eq_true, Bool.true_and, readCommand]
    by_cases hcreate : n.messageText = "create_table"
    · rw [if_pos hcreate, if_pos (beq_iff_eq.2 hcreate)]
      rfl
    · rw [if_neg hcreate, if_neg (mt beq_iff_eq.1 hcreate)]
      split
      · rw [table?_addIndex]
      · rfl
  · rename_i hkind
    rw [hkind]
    exact table?_readCall _ n s
  · rename_i hcommand _
    rw [beq_eq_false_iff_ne.2 hcommand, Bool.false_and]
    rfl

end Table

theorem table?_foldl_follow (file : Path) (nodes : List Node) (s : SchemaScope) :
    (nodes.foldl (follow file) s).table? = (lastTable? nodes).or s.table? := by
  induction nodes generalizing s with
  | nil => rfl
  | cons n nodes ih =>
    rw [List.foldl_cons, ih, table?_follow, lastTable?_cons, Option.or_assoc]
    congr 1
    split
    · rfl
    · rfl

end SchemaScope

end Practice

namespace Survey
open Schema Node
variable {ν : Type} {ignored : List FilePattern} {file : Path}

/-- The survey alone, in the block of the table of this model. -/
def surveying (ignored : List FilePattern) (t : Tables) (notes : List ν) (model? : Option String) :
    Session ν :=
  ⟨[⟨(schema ignored).spec, model?, []⟩], t, notes⟩

/-- The model of the block that is open after a call. -/
def modelAfter (n : Node) (model? : Option String) : Phase → Option String
  | .enter => if isTableBlock n then some (modelOf n) else model?
  | .exit => if isTableBlock n then none else model?

/-- What a call adds to the attributes. -/
def attributesAfter (phase : Phase) (n : Node) (model? : Option String) (t : Tables) : Tables :=
  if phase = .enter ∧ n.kind = .commandCall then
    { t with attributes := addColumns model? n t.attributes }
  else t

theorem announce_surveying (hfile : (schema (ν := ν) ignored).accepts file) (phase : Phase)
    (n : Node) (model? : Option String) (t : Tables) (notes : List ν) :
    Run.announce (.node phase file n) (surveying ignored t notes model?) =
      (surveying ignored (attributesAfter phase n model? t) notes (modelAfter n model? phase),
        none) := by
  have hreaches : (Call.node phase file n).reaches
      (⟨(schema ignored).spec, model?, []⟩ : Check ν) ↔
        n.kind ∈ [Kind.methodAddBlock, .commandCall] :=
    Call.reaches_node.trans (and_iff_left hfile)
  by_cases hkind : n.kind ∈ [Kind.methodAddBlock, .commandCall]
  · refine Run.announce_single (hreaches.2 hkind) ?_ notes
    rcases List.mem_pair.1 hkind with hkind | hkind
    · cases phase with
      | enter =>
        simp [Call.answer, Run.runCheck, hkind, schema, Run.handleAll, Handler.update,
          attributesAfter, modelAfter, isTableBlock]
      | exit =>
        simp [Call.answer, Run.runCheck, hkind, schema, Run.handleAll, Handler.update,
          attributesAfter, modelAfter, isTableBlock]
    · cases phase with
      | enter =>
        simp [Call.answer, Run.runCheck, hkind, schema, Run.handleAll, Handler.record,
          attributesAfter, modelAfter, isTableBlock]
      | exit =>
        simp [Call.answer, Run.runCheck, hkind, schema, Run.handleAll,
          attributesAfter, modelAfter, isTableBlock]
  · have hblock : ¬isTableBlock n := fun h =>
      hkind (List.mem_pair.2 (.inl (eq_of_beq (Bool.and_eq_true_iff.1 h).1)))
    have hcall : ¬(phase = .enter ∧ n.kind = .commandCall) := fun h =>
      hkind (List.mem_pair.2 (.inr h.2))
    have hmodel : modelAfter n model? phase = model? := by
      cases phase with
      | enter => exact if_neg hblock
      | exit => exact if_neg hblock
    rw [attributesAfter, if_neg hcall, hmodel]
    exact Run.announce_single_of_not_reaches (mt hreaches.1 hkind) t notes

/-- If no block of a table stands in another, the model is at every call that of the block that the
call stands in. -/
theorem modelAfter_blockTable? (phase : Phase) {outer : List Node} {n : Node}
    (hapart : isTableBlock n → ¬outer.any isTableBlock) :
    modelAfter n ((blockTable? (phase.openBefore outer n)).map Inflection.classify) phase =
      (blockTable? (phase.openAfter outer n)).map Inflection.classify := by
  have hinside : blockTable? (n :: outer) =
      if isTableBlock n then some (tableName n) else blockTable? outer := by
    rw [blockTable?, List.find?_cons]
    cases isTableBlock n with
    | false => rfl
    | true => rfl
  cases phase with
  | enter =>
    rw [modelAfter, Phase.openBefore, Phase.openAfter, hinside]
    split
    · rfl
    · rfl
  | exit =>
    rw [modelAfter, Phase.openBefore, Phase.openAfter, hinside]
    split
    · -- The survey forgets its table here, which is right only if no other block is open.
      rename_i hblock
      have hnone : outer.find? isTableBlock = none :=
        List.find?_eq_none.2 fun b hb hcreates =>
          hapart hblock (List.any_eq_true.2 ⟨b, hb, hcreates⟩)
      rw [blockTable?, hnone]
      rfl
    · rfl

/-- The survey adds the columns of a call to the model of the block that the call stands in. -/
theorem hear_addColumns (hfile : (schema (ν := ν) ignored).accepts file) {root call : Node}
    (hapart : ∀ x ∈ root.occurrences [], isTableBlock x.2 → ¬x.1.any isTableBlock)
    {outer : List Node} {made rest : List (List Node × Call)}
    (hcalls : Call.around file [] root = made ++ (outer, .node .enter file call) :: rest)
    (hkind : call.kind = .commandCall) (t : Tables) (notes : List ν) :
    let model? := (blockTable? outer).map Inflection.classify
    ∃ t', Run.hear (made.map (·.2)) ⟨[schema ignored], t, notes⟩ =
      (surveying ignored t' notes model?, none) ∧
    Run.announce (.node .enter file call) (surveying ignored t' notes model?) =
      (surveying ignored { t' with attributes := addColumns model? call t'.attributes } notes
        model?, none) := by
  intro model?
  have hlexical := Call.lexical_around file [] root
  rw [hcalls] at hlexical
  have hleads : Run.Leads (schema (ν := ν) ignored).spec notes
      (fun outer st ds _ => ds = [] ∧ st = (blockTable? outer).map Inflection.classify)
      [] (made.map (·.2)) outer := by
    refine Run.leads_lexical_of_mem (fun phase outer n hn => ?_) hlexical.upTo
    have hmem : (outer, Call.node phase file n) ∈ Call.around file [] root :=
      hcalls ▸ List.mem_append_left _ hn
    have hopen : isTableBlock n → ¬outer.any isTableBlock :=
      hapart (outer, n) (Call.mem_occurrences_of_mem_around [] root hmem)
    rintro st ds t ⟨rfl, rfl⟩
    refine ⟨(blockTable? (phase.openAfter outer n)).map Inflection.classify, [],
      attributesAfter phase n ((blockTable? (phase.openBefore outer n)).map Inflection.classify) t,
      ?_, rfl, rfl⟩
    rw [Run.hear_singleton, ← modelAfter_blockTable? phase hopen]
    exact announce_surveying hfile phase n _ t notes
  obtain ⟨st, ds, t', hmade, rfl, rfl⟩ := hleads none [] t ⟨rfl, rfl⟩
  refine ⟨t', hmade, ?_⟩
  have hblock : ¬isTableBlock call := by
    rw [isTableBlock, hkind]
    exact Bool.false_ne_true
  rw [announce_surveying hfile, attributesAfter, if_pos ⟨rfl, hkind⟩, modelAfter, if_neg hblock]

end Survey

namespace Practice
open Schema Node
variable {ν : Type}

section Runs
variable {ignored ignored' : List FilePattern} {file : Path} {root call : Node}
  {outer : List Node} {made rest : List (List Node × Call)}

/-- The review reads a call for the table whose command it has entered last. -/
theorem hear_readFor (hfile : (dbIndex (ν := ν) ignored).accepts file)
    (hcalls : Call.around file [] root = made ++ (outer, .node .enter file call) :: rest)
    (hkind : call.kind = .commandCall) (t : Tables) (notes : List ν) : ∃ s,
    Run.hear (made.map (·.2)) ⟨[dbIndex ignored], t, notes⟩ =
      (gathering ignored t notes s, none) ∧
    Run.announce (.node .enter file call) (gathering ignored t notes s) =
      (gathering ignored t notes
        (s.readFor ⟨some file, call.line?⟩ call (lastTable? (enteredBy made))), none) := by
  have hmade : ∀ x ∈ made, ∃ phase n, x.2 = .node phase file n := fun x hx =>
    (Call.lexical_around file [] root).exists_node (hcalls ▸ List.mem_append_left _ hx)
  refine ⟨(enteredBy made).foldl (SchemaScope.follow file) {},
    hear_gathering ignored t notes hfile {} hmade, ?_⟩
  have htable := SchemaScope.table?_foldl_follow file (enteredBy made) {}
  rw [Option.or_none] at htable
  rw [announce_gathering_enter ignored t notes hfile, ← htable,
    ← SchemaScope.readCall_eq_readFor, SchemaScope.follow, hkind]

end Runs

/-- What stands in front of a call for both checks to read it for the same table: in a block, the
command that the block begins with, and outside of all blocks no such command. -/
structure ReadAlike (outer : List Node) (made : List (List Node × Call)) : Prop where
  inside : ∀ b, outer.find? isTableBlock = some b → BeginsTable b
  outside : outer.find? isTableBlock = none → ∀ n ∈ enteredBy made, ¬isTableCommand n

/-- At every call that can declare columns, the survey adds them to the model of the block that the
call stands in, and the review of keys adds them to the table of the last command. These are the
same in a block that begins with such a command, and where no command has been entered yet. -/
theorem column_tables (ignored ignored' : List FilePattern) {file : Path}
    (hreview : (dbIndex (ν := ν) ignored).accepts file)
    (hsurvey : (Survey.schema (ν := ν) ignored').accepts file) {root : Node} (hplain : root.isPlain)
    (hapart : ∀ x ∈ root.occurrences [], isTableBlock x.2 → ¬x.1.any isTableBlock)
    {outer : List Node} {call : Node} {made rest : List (List Node × Call)}
    (hcalls : Call.around file [] root = made ++ (outer, .node .enter file call) :: rest)
    (hkind : call.kind = .commandCall) (t : Tables) (notes : List ν) :
    let model? := (blockTable? outer).map Inflection.classify
    Run.tree (ν := ν) root file =
      Run.hear (made.map (·.2) ++ .node .enter file call :: rest.map (·.2)) ∧
    (∃ s,
      Run.hear (made.map (·.2)) ⟨[dbIndex ignored], t, notes⟩ =
        (gathering ignored t notes s, none) ∧
      Run.announce (.node .enter file call) (gathering ignored t notes s) =
        (gathering ignored t notes
          (s.readFor ⟨some file, call.line?⟩ call (lastTable? (enteredBy made))), none)) ∧
    (∃ t',
      Run.hear (made.map (·.2)) ⟨[Survey.schema ignored'], t, notes⟩ =
        (Survey.surveying ignored' t' notes model?, none) ∧
      Run.announce (.node .enter file call) (Survey.surveying ignored' t' notes model?) =
        (Survey.surveying ignored'
          { t' with attributes := Survey.addColumns model? call t'.attributes } notes model?,
          none)) ∧
    (ReadAlike outer made → lastTable? (enteredBy made) = blockTable? outer) := by
  intro model?
  have htree : Run.tree (ν := ν) root file =
      Run.hear (made.map (·.2) ++ .node .enter file call :: rest.map (·.2)) := by
    rw [Run.tree_eq, Call.ofTree_of_isPlain file hplain, hcalls, List.map_append, List.map_cons]
  refine ⟨htree, hear_readFor hreview hcalls hkind t notes,
    Survey.hear_addColumns hsurvey hapart hcalls hkind t notes, fun halike => ?_⟩
  rcases hblock : outer.find? isTableBlock with _ | b
  · have hlast : (enteredBy made).reverse.find? isTableCommand = none :=
      List.find?_eq_none.2 fun n hn => halike.outside hblock n (List.mem_reverse.1 hn)
    rw [lastTable?, hlast, blockTable?, hblock]
  · have hinside := (Call.inside_of_around (List.mem_of_find?_eq_some hblock) [] root made rest
      hcalls).resolve_left List.not_mem_nil
    rw [blockTable?, hblock]
    exact (halike.inside b hblock).lastTable?_enteredBy (List.find?_some hblock) hkind hinside

/-- The column of a table whose block begins with the command is read for that table and added to
its model. -/
theorem column_tables_posts :
    let call := columnOn 2 "integer" "user_id"
    (program [.table (commandOf "create_table" ["posts"]) [call]]).isPlain ∧
      (∃ s : SchemaScope, Run.announce (.node .enter schemaFile call) (gathering [] {} [] s) =
        ((gathering [] {} [] (s.readFor ⟨some schemaFile, call.line?⟩ call (some "posts")) :
          Session Empty), none)) ∧
      ∃ t, Run.announce (.node .enter schemaFile call) (Survey.surveying [] t [] (some "Post")) =
        ((Survey.surveying [] { t with
          attributes := Survey.addColumns (some "Post") call t.attributes } [] (some "Post") :
            Session Empty), none) := by
  intro call
  let block : Node := (Part.table (commandOf "create_table" ["posts"]) [call]).tree
  let outer : List Node := [.ofKind .list [.node call],
    .ofKind .doBlock [.absent, .node (.ofKind .list [.node call])], block,
    .ofKind .list [.node block], .ofKind .program [.node (.ofKind .list [.node block])]]
  let calls := Call.around schemaFile [] (.ofKind .program [.node (.ofKind .list [.node block])])
  have hcall : calls.drop 13 = (outer, .node .enter schemaFile call) :: calls.drop 14 := by cbv
  have hcalls := (List.take_append_drop 13 calls).symm
  rw [hcall] at hcalls
  have halike : ReadAlike outer (calls.take 13) := by
    have hfind : outer.find? isTableBlock = some block := rfl
    refine ⟨fun b hb => ?_, fun hnone => ?_⟩
    · obtain rfl : block = b := Option.some.inj (hfind.symm.trans hb)
      exact ⟨⟨_, rfl, rfl⟩, by decide +kernel⟩
    · rw [hfind] at hnone
      cases hnone
  have hreview : (dbIndex (ν := Empty) []).accepts schemaFile := by decide +kernel
  have hsurvey : (Survey.schema (ν := Empty) []).accepts schemaFile := by decide +kernel
  have hplain : (program [.table (commandOf "create_table" ["posts"]) [call]]).isPlain := by
    decide +kernel
  obtain ⟨-, ⟨s, -, hread⟩, ⟨t, -, hadded⟩, hsame⟩ := column_tables [] [] hreview hsurvey hplain
    (by decide +kernel) hcalls rfl {} []
  have htable : blockTable? outer = some "posts" := by decide +kernel
  have hmodel : Inflection.classify "posts" = "Post" := by decide +kernel
  rw [hsame halike, htable] at hread
  rw [htable, Option.map_some, hmodel] at hadded
  exact ⟨hplain, ⟨s, hread⟩, t, hadded⟩

/-- A block that creates a table by a call with parentheses. -/
def parenthesizedTable (name : String) (calls : List Node) : Node :=
  let word (s : String) := Node.ofKind .identifier [.literal (.str s)]
  .ofKind .methodAddBlock
    [.node (.ofKind .methodAddArg
      [.node (.ofKind .functionCall [.node (word "create_table")]),
        .node (.ofKind .argParen [.node (.ofKind .list [.node (word name)])])]),
      .node (.ofKind .doBlock [.absent, .node (.ofKind .list (calls.map .node))])]

/-- The column of the second table is read for the first, as the command of the second is not. -/
theorem parenthesized_table_misread :
    let users := (Part.table (commandOf "create_table" ["users"]) []).tree
    let posts := parenthesizedTable "posts" [columnOn 2 "integer" "user_id"]
    let root := Node.ofKind .program [.node (.ofKind .list [.node users, .node posts])]
    let reviewed := (review [(schemaFile, root)] (⟨[dbIndex []], {}, []⟩ : Session Empty)).1
    let surveyed :=
      (Run.tree root schemaFile (⟨[Survey.schema []], {}, []⟩ : Session Empty)).1.tables.attributes
    reviewed.diagnostics.map (·.message) = ["always add db index (users => [user_id])"] ∧
      surveyed.isAttribute "Post" "user_id" ∧ ¬surveyed.isAttribute "User" "user_id" := by
  decide +kernel

end Practice
end RailsReview
