import Glean.Proofs.Evaluation.Members
import Glean.Proofs.Extraction.Arguments
import Glean.Proofs.Failures

/-!
# Questions about the properties of an object expression

Extraction asks about every entry of an argument, and where the argument is an object expression it
names a member with the question. The member is looked for by its key as it is written, and spread
members are passed over; the entry has its value from the last member that gives something under the
key (`Turn.giver?`), whichever form its key has. The two agree exactly where the giver spells the key
as a name or string, or is a spread and no member spells it (`ofNode_asks_giver`).
-/

namespace Glean

open Syntax Box

namespace Syntax.Member

/-- Whether the key is written as a name or string with a given text. -/
def spells (name : String) : Member → Bool
  | .shorthand _ id => id.name = name
  | .keyed _ key _ | .accessor _ _ key _ =>
    match key with
    | .name text | .string text => text = name
    | _ => false
  | .spread .. | .defaulted .. => false

/-- The member as one that defines a property; a spread member defines none. -/
def property? : Member → Option Member
  | .spread .. => none
  | member => some member

/-- Whether the member is spread. -/
def isSpread (member : Member) : Bool := member.property?.isNone

variable {member : Member} {name : String}

/-- A spread is no property of its own. -/
theorem property?_of_isSpread (spread : member.isSpread = true) : member.property? = none :=
  Option.isNone_iff_eq_none.1 spread

/-- Any member but a spread is its own property. -/
theorem property?_of_not_isSpread (written : member.isSpread = false) :
    member.property? = some member := by
  cases member with
  | spread => cases written
  | _ => rfl

/-- A member that spells a key states it, and is no spread. -/
theorem of_spells (spells : member.spells name = true) :
    member.Static ∧ member.names = [name] ∧ member.isSpread = false := by
  cases member with
  | spread | defaulted => cases spells
  | shorthand span id => exact ⟨trivial, congrArg ([·]) (of_decide_eq_true spells), rfl⟩
  | keyed _ key _ | accessor _ _ key _ =>
    cases key with
    | name text | string text =>
      exact ⟨List.cons_ne_nil _ _, congrArg ([·]) (of_decide_eq_true spells), rfl⟩
    | _ => cases spells

end Syntax.Member

namespace Turn

variable {setting : Setting} {file : Document} {node : Reference} {name : String}

/-- Who spells a key gives something under it. -/
theorem contains_of_spells {turn : Turn} (spells : turn.member.spells name = true) :
    Entries.contains (turn.entries setting file node) name = true := by
  obtain ⟨static, names, _⟩ := Member.of_spells spells
  rw [Entries.contains_iff, keys_entries_of_static static, names]
  exact List.mem_singleton_self name

/-- A giver that spells the key is the last member to spell it. -/
theorem find?_of_giver? {turns : List Turn} {giver : Turn}
    (given : giver? setting file node turns name = some giver)
    (spells : giver.member.spells name = true) :
    (turns.map Turn.member).reverse.find? (Member.spells name) = some giver.member := by
  induction turns with
  | nil => cases given
  | cons first rest ih =>
    rw [giver?_cons] at given
    rw [List.map_cons, List.reverse_cons, List.find?_append]
    cases later : giver? setting file node rest name with
    | some turn =>
      obtain rfl : turn = giver := by simpa [later] using given
      rw [ih later]
      rfl
    | none =>
      -- Nothing is given under the key later, so it is not spelled later either.
      have silent : ∀ member ∈ (rest.map Turn.member).reverse, ¬ member.spells name = true := by
        intro member listed spelled
        obtain ⟨turn, among, rfl⟩ := List.mem_map.1 (List.mem_reverse.1 listed)
        have silent := List.find?_eq_none.1 later turn (List.mem_reverse.2 among)
        exact silent (contains_of_spells spelled)
      rw [later, Option.none_or] at given
      obtain ⟨_, same⟩ := Option.ite_none_right_eq_some.1 given
      obtain rfl : first = giver := Option.some_inj.1 same
      rw [List.find?_eq_none.2 silent]
      simp [spells]

end Turn

namespace Extraction

variable {argument : Expr} {span : Span} {list : List Member}

/-- In an object literal the last member that spells the name is the inline one. -/
theorem inlineMember?_eq (literal : argument.unwrap = .object span list) (name : String) :
    inlineMember? argument name = list.reverse.find? (Member.spells name) := by
  unfold inlineMember?
  rw [literal]
  congr 1

/-- The member that is named with the question about a key is the giver of the entry exactly when
the giver spells the key, or is spread and no member spells it. -/
theorem inlineMember?_eq_giver_iff (literal : argument.unwrap = .object span list)
    {setting : Setting} {file : Document} {node : Reference} {run : Run} {name : String}
    {giver : Turn}
    (given : Turn.giver? setting file node (setting.turns file node list run) name = some giver) :
    inlineMember? argument name = giver.member.property? ↔
      giver.member.spells name = true ∨
        giver.member.isSpread = true ∧ ∀ member ∈ list, member.spells name = false := by
  have members := setting.map_member_turns file node list run
  rw [inlineMember?_eq literal]
  constructor
  · intro same
    cases spread : giver.member.isSpread with
    | true =>
      rw [Member.property?_of_isSpread spread] at same
      refine .inr ⟨rfl, fun member listed => ?_⟩
      exact Bool.not_eq_true _ ▸ List.find?_eq_none.1 same member (List.mem_reverse.2 listed)
    | false =>
      rw [Member.property?_of_not_isSpread spread] at same
      exact .inl (List.find?_some same)
  · rintro (spells | ⟨spread, silent⟩)
    · have found := Turn.find?_of_giver? given spells
      rw [members] at found
      rw [found, Member.property?_of_not_isSpread (Member.of_spells spells).2.2]
    · rw [Member.property?_of_isSpread spread]
      refine List.find?_eq_none.2 fun member listed => ?_
      simp [silent member (List.mem_reverse.1 listed)]

end Extraction

/-- A result that is fine after a change was fine before. -/
theorem exists_ok_of_map {ε α β : Type} {result : Except ε α} {change : α → β} {value : β}
    (same : result.map change = .ok value) : ∃ before, result = .ok before := by
  cases result with
  | error failure => cases same
  | ok before => exact ⟨before, rfl⟩

/-- From a state, the computation poses the questions of a list in order, all of them unless it
fails. -/
def Extract.Asks {α : Type} (computation : Extract α) (run : Run) (questions : List Question) :
    Prop :=
  ∃ asked, asked <+: questions ∧
    (computation.run.run run).2.questions = run.questions ++ asked ∧
    ∀ value, (computation.run.run run).1 = .ok value → asked = questions

namespace Extract.Asks

variable {α β : Type} {run : Run} {questions others : List Question}

/-- A value alone asks nothing. -/
theorem pure (value : α) : Asks (Pure.pure value : Extract α) run [] :=
  ⟨[], List.prefix_rfl, (List.append_nil _).symm, fun _ _ => rfl⟩

/-- Asking a question asks that question, whatever the answer is. -/
theorem ask (file : Document) (question : Question) (answer : Answer) :
    Asks (Extraction.ask file question answer) run [question] := by
  refine ⟨[question], List.prefix_rfl, ?_, fun _ _ => rfl⟩
  rw [Extraction.ask_run]
  exact run.questions_question question

/-- An evaluation asks no matcher. -/
theorem evaluate (setting : Setting) (file : Document) (around : Reference) (expr : Expr) :
    Asks (Extraction.evaluate setting file around expr) run [] := by
  obtain ⟨place, strangers, box, after, _, _, evaluated, returns, _⟩ :=
    setting.evaluate_spec file.path { run with stack := around :: run.stack } expr
  refine ⟨[], List.prefix_rfl, ?_, fun _ _ => rfl⟩
  rw [Extraction.evaluate_run, evaluated, List.append_nil]
  exact returns.questions

/-- Computations ask their questions one after the other. -/
theorem bind {computation : Extract α} {next : α → Extract β} (first : Asks computation run questions)
    (rest : ∀ value after, computation.run.run run = (.ok value, after) →
      Asks (next value) after others) :
    Asks (computation >>= next) run (questions ++ others) := by
  obtain ⟨asked, initial, posed, all⟩ := first
  unfold Asks
  rw [run_bind]
  generalize computation.run.run run = ended at posed all rest
  obtain ⟨failure | value, after⟩ := ended
  · exact ⟨asked, initial.trans (List.prefix_append ..), posed, nofun⟩
  · obtain ⟨more, initialNext, posedNext, allNext⟩ := rest value after rfl
    obtain rfl := all value rfl
    refine ⟨asked ++ more, (List.prefix_append_right_inj _).2 initialNext, ?_, fun result same => ?_⟩
    · rw [posedNext, posed, List.append_assoc]
    · rw [allNext result same]

/-- A value is passed on without further questions. -/
theorem map {computation : Extract α} (first : Asks computation run questions) (change : α → β) :
    Asks (computation >>= fun value => Pure.pure (change value)) run questions := by
  have ends : ∀ value after, computation.run.run run = (.ok value, after) →
      Asks (Pure.pure (change value) : Extract β) after [] := fun value _ _ => pure (change value)
  have mapped := first.bind ends
  rwa [List.append_nil] at mapped

/-- What is asked in the end may depend on what has come before. -/
theorem bind_some {computation : Extract α} {next : α → Extract β}
    (first : Asks computation run questions)
    (rest : ∀ value after, ∃ others, Asks (next value) after others) :
    ∃ others, Asks (computation >>= next) run (questions ++ others) := by
  cases ended : computation.run.run run with
  | mk result after =>
    cases result with
    | ok value =>
      obtain ⟨others, asks⟩ := rest value after
      refine ⟨others, first.bind fun other last same => ?_⟩
      cases ended.symm.trans same
      exact asks
    | error failure =>
      refine ⟨[], first.bind fun other last same => ?_⟩
      cases ended.symm.trans same

/-- Extraction asks something, whatever it is. -/
theorem of_auditing {matchers : Matchers} {path : Path} {nodes : List Node} {expected : α → Prop}
    {computation : Extract α}
    (audits : (Extraction.auditing matchers path nodes).Holds expected computation) (run : Run) :
    ∃ asked, Asks computation run asked := by
  obtain ⟨asked, posed, _⟩ := audits run
  exact ⟨asked, asked, List.prefix_rfl, posed, fun _ _ => rfl⟩

end Extract.Asks

namespace Extraction

open Extract

variable {setting : Setting} {file : Document} {matcher : FunctionMatcher} {name : String}
  {site : Call} {argument : Expr} {run : Run}

/-- The question about a property of an argument. -/
def propertyQuestion (name : String) (site : Call) (argument : Expr) (key : String) : Question :=
  .property ⟨name, site, argument, key, inlineMember? argument key⟩

/-- Of every entry of an argument it is asked whether it is taken, in order. -/
theorem asks_takenEntries (entries : List (String × Box)) :
    Asks (takenEntries file matcher name site argument entries) run
      ((Entries.keys entries).map (propertyQuestion name site argument)) := by
  induction entries generalizing run with
  | nil => exact .pure _
  | cons first rest ih =>
    obtain ⟨key, box⟩ := first
    exact (Asks.ask file (propertyQuestion name site argument key) _).bind fun taken after _ =>
      ih.map _

/-- Of an argument that is not conditional, each entry is asked about. -/
theorem asks_takenProperties {box : Box} (single : box.branches? = none) :
    Asks (takenProperties file matcher name site argument box) run
      ((Entries.keys (box.entries?.getD [])).map (propertyQuestion name site argument)) := by
  cases box with
  | conditional => cases single
  | map entries node => exact (asks_takenEntries entries).map _
  | _ => exact .pure _

/-- Arguments are worked on one after the other. -/
theorem arguments_append (around : Reference) (index : Nat) (earlier later : List Argument) :
    arguments setting file matcher name site around index (earlier ++ later) = (do
      let boxes ← arguments setting file matcher name site around index earlier
      let others ← arguments setting file matcher name site around (index + earlier.length) later
      pure (boxes ++ others)) := by
  induction earlier generalizing index with
  | nil => simp [arguments]
  | cons first rest ih =>
    have shift : index + (rest.length + 1) = index + 1 + rest.length := by omega
    simp only [List.cons_append, arguments, ih, bind_assoc, pure_bind, List.length_cons, shift]
    refine bind_congr fun taken => ?_
    cases taken <;> simp only [Bool.false_eq_true, if_true, if_false, bind_assoc, pure_bind]
    all_goals rfl

/-- Something is asked about the last arguments of a call, whatever it is. -/
theorem exists_asks_arguments {matchers : Matchers} (chosen : matchers.functions = some matcher)
    (named : site.callee.bind Expr.dotted? = some name) {earlier later : List Argument}
    (split : site.arguments = earlier ++ later) (run : Run) :
    ∃ asked, Asks (arguments setting file matcher name site ⟨file.path, site.span, .call⟩
      earlier.length later) run asked := by
  let visited := Node.expr (.call site.span site.callee site.arguments)
  have audits := (allows_auditing setting matchers file [visited]).arguments_holds chosen
    (List.mem_singleton_self visited) named earlier later split
  exact Asks.of_auditing audits run

/-- An argument that is taken is evaluated within the call, and then asked about. What is asked about
the arguments after it makes no difference here. -/
theorem asks_arguments {matchers : Matchers} (chosen : matchers.functions = some matcher)
    (named : site.callee.bind Expr.dotted? = some name) {earlier later : List Argument}
    {argument : Argument} (split : site.arguments = earlier ++ argument :: later)
    (taken : matcher.argument ⟨name, site, earlier.length, argument.value⟩ = .ok true) :
    let around : Reference := ⟨file.path, site.span, .call⟩
    let question : Question := .argument ⟨name, site, earlier.length, argument.value⟩
    let inside : Run := { run.posed question with stack := around :: run.stack }
    let box := ((setting.evaluate file.path argument.value).run inside).1
    box.branches? = none → ∃ rest,
      Asks (arguments setting file matcher name site around earlier.length (argument :: later)) run
        (question ::
          (Entries.keys (box.entries?.getD [])).map (propertyQuestion name site argument.value) ++
            rest) := by
  intro around question inside box single
  have whole : site.arguments = (earlier ++ [argument]) ++ later := by simp [split]
  have others : ∀ after, ∃ asked, Asks (arguments setting file matcher name site around
      (earlier ++ [argument]).length later) after asked := exists_asks_arguments chosen named whole
  rw [List.length_append] at others
  let ended := (setting.evaluate file.path argument.value).run inside
  have properties : Asks (takenProperties file matcher name site argument.value box)
      { ended.2 with stack := ended.2.stack.tail }
      ((Entries.keys (box.entries?.getD [])).map (propertyQuestion name site argument.value)) :=
    asks_takenProperties single
  obtain ⟨rest, tail⟩ := properties.bind_some fun value after =>
    (others after).imp fun _ asks => asks.map (value :: ·)
  refine ⟨rest, ?_⟩
  -- In the order of the code: the argument, its value, its properties, the arguments after it.
  unfold Extraction.arguments
  dsimp only
  rw [taken]
  have answered : Asks (ask file question (.ok true)) run [question] := .ask file question _
  refine answered.bind fun answer after asked => ?_
  obtain ⟨rfl, rfl⟩ : true = answer ∧ run.posed question = after := by
    cases asked
    exact ⟨rfl, rfl⟩
  have silent : Asks (evaluate setting file around argument.value) (run.posed question) [] :=
    .evaluate setting file around argument.value
  refine silent.bind fun value after evaluated => ?_
  cases evaluated
  exact tail

/-- The box of an object expression is a map of what its members give, or nothing is known of it. -/
theorem branches?_evaluate_object (found : setting.project.file? file.path = some file) {expr : Expr}
    {list : List Member} {span : Span} (literal : expr.unwrap = .object span list)
    (settled : ∀ turn ∈ setting.turns file (file.scope.refer span) list
      (setting.entered file.path expr run), turn.isSettled setting file = true) :
    let box := ((setting.evaluate file.path expr).run run).1
    let turns := setting.turns file (file.scope.refer span) list (setting.entered file.path expr run)
    box.branches? = none ∧ ∀ key value, (key, value) ∈ box.entries?.getD [] →
      ((Turn.giver? setting file (file.scope.refer span) turns key).bind fun turn =>
        Entries.get? (turn.entries setting file (file.scope.refer span)) key) = some value := by
  intro box turns
  by_cases permitted : setting.Permits expr run
  · have made : box = _ := Setting.evaluate_object found literal permitted settled
    rw [made]
    refine ⟨rfl, fun key value listed => ?_⟩
    rw [← Turn.get?_flatMap_entries (Setting.nodup_entries_of_settled settled)]
    exact Entries.get?_of_mem (Entries.nodup_ofList _) listed
  · have unknown : box = _ := Setting.evaluate_of_not_permitted file.path permitted
    rw [unknown]
    exact ⟨rfl, nofun⟩

/-- A call that is taken is done once its later arguments are, from where the earlier ones end. -/
theorem ofNode_call_run {matchers : Matchers} (chosen : matchers.functions = some matcher)
    (named : site.callee.bind Expr.dotted? = some name)
    (matched : matcher.call ⟨name, site⟩ = .ok true) {earlier later : List Argument}
    (split : site.arguments = earlier ++ later) {boxes : List Box} {here : Run}
    (reached : (arguments setting file matcher name site ⟨file.path, site.span, .call⟩ 0
      earlier).run.run (run.posed (.call ⟨name, site⟩)) = (.ok boxes, here)) :
    let node : Reference := ⟨file.path, site.span, .call⟩
    let ended := (arguments setting file matcher name site node earlier.length later).run.run here
    (ofNode setting matchers file
        (.expr (.call site.span site.callee site.arguments))).run.run run =
      (ended.1.map fun others => some ⟨name, .call, node, .list (boxes ++ others) (some node)⟩,
        ended.2) := by
  intro node ended
  have asked : (ask file (.call ⟨name, site⟩) (.ok true)).run.run run =
      (.ok true, run.posed (.call ⟨name, site⟩)) := ask_run ..
  have all : (arguments setting file matcher name site node 0 site.arguments).run.run
      (run.posed (.call ⟨name, site⟩)) = (ended.1.map (boxes ++ ·), ended.2) := by
    rw [split, arguments_append, run_bind, reached]
    dsimp only [ended]
    rw [run_bind, Nat.zero_add]
    generalize (arguments setting file matcher name site node earlier.length later).run.run here =
      last
    obtain ⟨_ | _, _⟩ := last <;> rfl
  unfold ofNode
  simp only [chosen]
  unfold call
  rw [named]
  dsimp only
  rw [matched, run_bind, asked]
  dsimp only
  rw [if_pos rfl, run_bind, all]
  cases ended.1 <;> rfl

end Extraction

/-- A call that a matcher takes is asked about argument by argument. Of an argument that is taken and
is an object expression, each entry is asked about in order, unless a matcher fails before. The value
of an entry is what the last member gives that gives anything under its key, and this is the member
that is named with the question, or none is named for a spread, exactly when the member spells the
key as a name or string, or is spread and no member spells it. -/
theorem ofNode_asks_giver (setting : Setting) (matchers : Matchers) (matcher : FunctionMatcher)
    (file : Document) (name : String) (site : Call) (earlier later : List Argument)
    (argument : Argument) (span : Span) (members : List Member) (run here : Run) (boxes : List Box)
    (found : setting.project.file? file.path = some file)
    (chosen : matchers.functions = some matcher)
    (named : site.callee.bind Expr.dotted? = some name)
    (matched : matcher.call ⟨name, site⟩ = .ok true)
    (split : site.arguments = earlier ++ argument :: later)
    (reached : (Extraction.arguments setting file matcher name site ⟨file.path, site.span, .call⟩ 0
      earlier).run.run (run.posed (.call ⟨name, site⟩)) = (.ok boxes, here))
    (taken : matcher.argument ⟨name, site, earlier.length, argument.value⟩ = .ok true)
    (literal : argument.value.unwrap = .object span members) :
    let question : Question := .argument ⟨name, site, earlier.length, argument.value⟩
    let inside : Run :=
      { here.posed question with stack := ⟨file.path, site.span, .call⟩ :: here.stack }
    let entries := ((setting.evaluate file.path argument.value).run inside).1.entries?.getD []
    let node := file.scope.refer span
    let turns := setting.turns file node members (setting.entered file.path argument.value inside)
    let visited := Node.expr (.call site.span site.callee site.arguments)
    let ended := (Extraction.ofNode setting matchers file visited).run.run run
    (∀ turn ∈ turns, turn.isSettled setting file = true) →
      (∃ rest asked, ended.2.questions = here.questions ++ asked ∧
        asked <+: question ::
          (Entries.keys entries).map (Extraction.propertyQuestion name site argument.value) ++ rest ∧
        ∀ value, ended.1 = .ok value → asked = question ::
          (Entries.keys entries).map (Extraction.propertyQuestion name site argument.value) ++
            rest) ∧
      ∀ key value, (key, value) ∈ entries → ∃ giver,
        Turn.giver? setting file node turns key = some giver ∧
        Entries.get? (giver.entries setting file node) key = some value ∧
        (Extraction.inlineMember? argument.value key = giver.member.property? ↔
          giver.member.spells key = true ∨
            giver.member.isSpread = true ∧ ∀ member ∈ members, member.spells key = false) := by
  intro question inside entries node turns visited ended settled
  obtain ⟨single, gives⟩ := Extraction.branches?_evaluate_object found literal settled
  constructor
  · have ends : ended = _ := Extraction.ofNode_call_run chosen named matched split reached
    -- The state `here` stands for all that was asked about the arguments before.
    have asks : ∃ rest, Extract.Asks (Extraction.arguments setting file matcher name site
        ⟨file.path, site.span, .call⟩ earlier.length (argument :: later)) here
        (question ::
          (Entries.keys entries).map (Extraction.propertyQuestion name site argument.value) ++
            rest) := Extraction.asks_arguments chosen named split taken single
    obtain ⟨rest, asked, initial, posed, all⟩ := asks
    refine ⟨rest, asked, ends ▸ posed, initial, fun value same => ?_⟩
    rw [ends] at same
    obtain ⟨others, same⟩ := exists_ok_of_map same
    exact all others same
  · intro key value listed
    obtain ⟨giver, given, held⟩ := Option.bind_eq_some_iff.1 (gives key value listed)
    exact ⟨giver, given, held, Extraction.inlineMember?_eq_giver_iff literal given⟩

/-- A call of `f` with an object expression. -/
def objectCall (members : List Member) : Call :=
  callOf [.single (.object ⟨3, 28⟩ members)] 29

/-- `a: "x"` -/
def plainMember : Member := .keyed ⟨5, 11⟩ (.name "a") (.literal ⟨8, 11⟩ (.string "x"))

/-- A spread of `{ b: "y" }`, or of an object with another key. -/
def spreadMember (key : String) : Member :=
  .spread ⟨13, 26⟩ (.object ⟨16, 26⟩
    [.keyed ⟨18, 24⟩ (.name key) (.literal ⟨21, 24⟩ (.string "y"))])

/-- The state in which the argument is evaluated when the call is visited first. -/
def objectCallState (members : List Member) : Run :=
  let site := objectCall members
  let argument : Expr := .object ⟨3, 28⟩ members
  let asked := (Run.posed {} (.call ⟨"f", site⟩)).posed (.argument ⟨"f", site, 0, argument⟩)
  { asked with stack := [⟨(callFile site).path, site.span, .call⟩] }

/-- The entries of the argument. -/
def objectCallEntries (setting : Setting) (members : List Member) : Entries String Box :=
  let path := (callFile (objectCall members)).path
  let evaluated := setting.evaluate path (.object ⟨3, 28⟩ members)
  (evaluated.run (objectCallState members)).1.entries?.getD []

/-- The turns of the members. -/
def objectCallTurns (setting : Setting) (members : List Member) : List Turn :=
  let file := callFile (objectCall members)
  setting.turns file (file.scope.refer ⟨3, 28⟩) members
    (setting.entered file.path (.object ⟨3, 28⟩ members) (objectCallState members))

/-- Who gives what stands under a key of the object expression. -/
def objectCallGiver? (setting : Setting) (members : List Member) (key : String) : Option Turn :=
  let file := callFile (objectCall members)
  Turn.giver? setting file (file.scope.refer ⟨3, 28⟩) (objectCallTurns setting members) key

/-- `f({ a: "x", ...{ b: "y" } })` is asked about the member for `a` and about no member for `b`. -/
theorem ofNode_asks_giver_spread :
    let members := [plainMember, spreadMember "b"]
    let site := objectCall members
    let file := callFile site
    let setting : Setting := { project := Project.insert {} file }
    let matcher := ({} : NameRules).functions
    let argument : Expr := .object ⟨3, 28⟩ members
    setting.project.file? file.path = some file ∧
      site.callee.bind Expr.dotted? = some "f" ∧
      matcher.call ⟨"f", site⟩ = .ok true ∧
      matcher.argument ⟨"f", site, 0, argument⟩ = .ok true ∧
      argument.unwrap = .object ⟨3, 28⟩ members ∧
      (∀ turn ∈ objectCallTurns setting members, turn.isSettled setting file = true) ∧
      Entries.keys (objectCallEntries setting members) = ["a", "b"] ∧
      ∀ key value, (key, value) ∈ objectCallEntries setting members → ∃ giver,
        objectCallGiver? setting members key = some giver ∧
        (giver.member.spells key = true ∨
          giver.member.isSpread = true ∧ ∀ member ∈ members, member.spells key = false) ∧
        Extraction.inlineMember? argument key = giver.member.property? := by
  intro members site file setting matcher argument
  have found : setting.project.file? file.path = some file := Project.file?_insert {} file
  have named : site.callee.bind Expr.dotted? = some "f" := by decide +kernel
  have matched : matcher.call ⟨"f", site⟩ = .ok true := rfl
  have taken : matcher.argument ⟨"f", site, 0, argument⟩ = .ok true := rfl
  have literal : argument.unwrap = .object ⟨3, 28⟩ members := rfl
  have settled : ∀ turn ∈ objectCallTurns setting members, turn.isSettled setting file = true := by
    decide +kernel
  have keys : Entries.keys (objectCallEntries setting members) = ["a", "b"] := by decide +kernel
  have spelled : ∀ key ∈ ["a", "b"], (objectCallGiver? setting members key).all (fun giver =>
      giver.member.spells key ||
        giver.member.isSpread && members.all fun member => !member.spells key) = true := by
    decide +kernel
  have asks := (ofNode_asks_giver setting { functions := some matcher } matcher file "f" site [] []
    (.single argument) ⟨3, 28⟩ members {} (Run.posed {} (.call ⟨"f", site⟩)) [] found rfl named
    matched rfl rfl taken literal settled).2
  refine ⟨found, named, matched, taken, literal, settled, keys, fun key value listed => ?_⟩
  obtain ⟨giver, given, _, agrees⟩ := asks key value listed
  have given : objectCallGiver? setting members key = some giver := given
  have known : key ∈ Entries.keys (objectCallEntries setting members) :=
    List.mem_map.2 ⟨_, listed, rfl⟩
  have spells := spelled key (keys ▸ known)
  rw [given] at spells
  have spells : giver.member.spells key = true ∨
      giver.member.isSpread = true ∧ ∀ member ∈ members, member.spells key = false := by
    simpa using spells
  exact ⟨giver, given, spells, agrees.2 spells⟩

/-- `f({ 1: "x" })` is asked about no member for the property, although it comes from the only one,
and `f({ a: "x", ...{ a: "y" } })` about the member for `a`, although the value is that of the
spread. -/
theorem not_ofNode_asks_giver :
    let setting := fun members : List Member =>
      ({ project := Project.insert {} (callFile (objectCall members)) } : Setting)
    let asked := fun members : List Member =>
      let matchers : Matchers := { functions := some ({} : NameRules).functions }
      let path := (callFile (objectCall members)).path
      (Extraction.extract (setting members) matchers path).2.questions.filterMap fun
        | .property question => some (question.property, question.member.map Member.span)
        | _ => none
    let settled := fun members : List Member =>
      (objectCallTurns (setting members) members).all fun turn =>
        turn.isSettled (setting members) (callFile (objectCall members))
    let giver := fun (members : List Member) (key : String) =>
      (objectCallGiver? (setting members) members key).map fun giver =>
        giver.member.property?.map Member.span
    let numbered := [.keyed ⟨5, 11⟩ (.number (.ofNat 1)) (.literal ⟨8, 11⟩ (.string "x"))]
    let overridden := [plainMember, spreadMember "a"]
    settled numbered = true ∧ giver numbered "1" = some (some ⟨5, 11⟩) ∧
      asked numbered = [("1", none)] ∧
    settled overridden = true ∧ giver overridden "a" = some none ∧
      asked overridden = [("a", some ⟨5, 11⟩)] := by
  decide +kernel

end Glean
