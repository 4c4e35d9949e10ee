import Glean.Box.Operators
import Glean.Box.Reading
import Glean.Box.Spread
import Glean.Evaluation.Run
import Glean.Syntax.Name

/-!
# One step of evaluation

`step` evaluates an expression, a binding, an export or all exports of a module, and leaves the
smaller ones that it needs to the function `next`. Nothing here fails: what has no static meaning
becomes an unresolvable box with the reason.

An expression is evaluated in the scope of its module. Names are followed to constant bindings and,
through imports, into other modules; values that are referred to by name go through the guard.
-/

namespace Glean

open Syntax

/-- Something that can be evaluated. -/
inductive Task where
  /-- An expression of a module. -/
  | expr (scope : Scope) (expr : Expr)
  /-- What a name stands for, used at a node. -/
  | binding (scope : Scope) (id : Id) (node : Reference)
  /-- What the module at a path exports under a name, used at a node. -/
  | exported (path : Path) (name : String) (node : Reference)
  /-- Everything that the module at a path exports by name, used at a node. -/
  | whole (path : Path) (node : Reference)

/-- What an evaluation depends on. -/
structure Setting where
  /-- The files. -/
  project : Project
  /-- How far to go. -/
  policy : Policy := {}

namespace Box

/-- Nothing is known, for a reason that arose at a node. -/
def unknown (reason : Reason) (node : Reference) : Box := unresolvable reason (some node)

/-- The undefined value, from a node. -/
def undefinedAt (node : Reference) : Box := literal .undefined (some node)

end Box

/-- The reference to an expression of a module. -/
def Scope.refer (scope : Scope) (span : Span) : Reference := ⟨scope.file, span, .expr⟩

/-- The text of a quasi: with escapes replaced if possible, and as written otherwise. -/
def Syntax.Quasi.text (quasi : Quasi) : String := quasi.cooked.getD quasi.raw

/-- The key that reads the part at the end of a step. -/
def Step.toKey : Step → Primitive
  | key name => .string name
  | index position => .number (.ofNat position)

/-- The part of a value that a name binds, read at a node. -/
def Variable.part (binding : Variable) (node : Reference) (whole : Box) : Box :=
  binding.path.foldl (fun box step => box.read step.toKey node) whole

/-- The value of a literal; regular expressions and large integers have none. -/
def Syntax.Literal.toPrimitive? : Literal → Option Primitive
  | string value => some (.string value)
  | number value => some (.number value)
  | boolean value => some (.boolean value)
  | null => some .null
  | bigint _ | regex => none

/-- The values of names that no module binds. -/
def builtin? (name : String) : Option Primitive :=
  if name = "undefined" then some .undefined
  else if name = "NaN" then some (.number Number.notANumber)
  else if name = "Infinity" then some (.number Number.infinity)
  else none

/-- The file that an import names, unless files are not to be entered. -/
def Setting.target? (setting : Setting) (scope : Scope) (source : String) : Option Path :=
  if setting.policy.flags.skipFiles then none else setting.project.resolve? scope.file source

/-- The text of a span of the scope's module. -/
def Setting.snippet? (setting : Setting) (scope : Scope) (span : Span) : Option String :=
  (setting.project.file? scope.file).bind (·.snippet? span)

/-- The text that stands in for the key of a computed member. -/
def Setting.sourceOfKey (setting : Setting) (scope : Scope) (span : Span) : String :=
  (setting.snippet? scope span).getD "[computed]"

/-- The text under which a spread is kept when nothing is known about its value. -/
def Setting.sourceOfSpread (setting : Setting) (scope : Scope) (span : Span) : String :=
  (setting.snippet? scope span).getD "..."

namespace Evaluation

section

variable (setting : Setting) (guard : Guard) (next : Task → Eval Box)

/-- A template: its texts and interpolations one after the other. An interpolation that is no
literal leaves the whole unknown. -/
def template (scope : Scope) (node : Reference) (done : String) :
    List Quasi → List Expr → Eval Box
  | [], _ => pure (.text done (some node))
  | quasi :: quasis, [] => template scope node (done ++ quasi.text) quasis []
  | quasi :: quasis, interpolation :: others => do
    match ← next (.expr scope interpolation) with
    | .literal value _ =>
      template scope node (done ++ quasi.text ++ value.toText) quasis others
    | .unresolvable reason origin => pure (.unresolvable reason origin)
    | _ => pure (.unknown .unsupported node)

/-- The items of an array expression; a hole is undefined. -/
def elements (scope : Scope) (node : Reference) : List (Option Argument) → Eval (List Box)
  | [] => pure []
  | none :: rest => do
    let others ← elements scope node rest
    pure (.undefinedAt node :: others)
  | some (.single value) :: rest => do
    let item ← next (.expr scope value)
    let others ← elements scope node rest
    pure (item :: others)
  | some (.spread value) :: rest => do
    let box ← next (.expr scope value)
    let others ← elements scope node rest
    pure (box.spreadItems (scope.refer value.span) ++ others)

/-- The text of a key. When a computed key has no static value, the text of its source stands in
for it, together with the box that is stored there in place of the member's value. -/
def keyText (scope : Scope) : Key → Eval (String × Option Box)
  | .name text | .string text => pure (text, none)
  | .number value => pure (Number.text value, none)
  | .bigint digits => pure (digits, none)
  | .hidden name => pure (name, none)
  | .computed span value => do
    match ← next (.expr scope value) with
    | .literal value _ => pure (value.toText, none)
    | .unresolvable reason origin =>
      pure (setting.sourceOfKey scope span, some (.unresolvable reason origin))
    | _ =>
      pure (setting.sourceOfKey scope span, some (.unknown .unsupported (scope.refer span)))

/-- Adds one member of an object expression to the entries before it. -/
def member (scope : Scope) (node : Reference) (entries : Entries String Box) :
    Member → Eval (Entries String Box)
  | .spread span value => do
    let box ← next (.expr scope value)
    pure (box.spread (setting.sourceOfSpread scope span) node entries)
  | .shorthand span id => do
    let value ← next (.expr scope (.ident span id))
    pure (Entries.insert entries id.name value)
  | .keyed _ key value => do
    match ← keyText setting next scope key with
    | (text, none) =>
      let box ← next (.expr scope value)
      pure (Entries.insert entries text box)
    | (text, some box) => pure (Entries.insert entries text box)
  | .accessor span _ key _ => do
    let (text, _) ← keyText setting next scope key
    pure (Entries.insert entries text (.unknown .unsupported (scope.refer span)))
  | .defaulted .. => pure entries

/-- The entries of an object expression, member by member. -/
def members (scope : Scope) (node : Reference) (entries : Entries String Box) :
    List Member → Eval (Entries String Box)
  | [] => pure entries
  | first :: rest => do
    let entries ← member setting next scope node entries first
    members scope node entries rest

/-- A name: an override, else its binding, else one of the values that need none. -/
def name (scope : Scope) (id : Id) (node : Reference) : Eval Box := do
  match ← Eval.override? id.name with
  | some box => pure box
  | none =>
    if (scope.binding? id).isSome then next (.binding scope id node)
    else
      match builtin? id.name with
      | some value => pure (.literal value (some node))
      | none => pure (.unknown .unbound node)

/-- The import behind a name that stands for all exports of a module, unless it is overridden. -/
def wholeImport? (scope : Scope) : Expr → Eval (Option String)
  | .ident _ id => do
    match ← Eval.override? id.name, scope.binding? id with
    | none, some (.imported source .whole) => pure (some source)
    | _, _ => pure none
  | _ => pure none

/-- A member under a known key. Of an object of all exports only the one export is evaluated. -/
def read (scope : Scope) (base : Expr) (key : Primitive) (node : Reference) : Eval Box := do
  match ← wholeImport? scope base.unwrap with
  | some source =>
    match setting.target? scope source with
    | some path => next (.exported path key.toText node)
    | none => pure (.unknown .unbound node)
  | none =>
    let box ← next (.expr scope base)
    pure (box.read key node)

/-- A member. A computed key is evaluated before the object. -/
def access (scope : Scope) (base : Expr) (key : Key) (node : Reference) : Eval Box :=
  match key with
  | .name text | .string text => read setting next scope base (.string text) node
  | .number value => read setting next scope base (.number value) node
  | .bigint _ | .hidden _ => pure (.unknown .unsupported node)
  | .computed _ value => do
    match ← next (.expr scope value) with
    | .literal value _ => read setting next scope base value node
    | .unresolvable reason origin => pure (.unresolvable reason origin)
    | _ => pure (.unknown .unsupported node)

/-- One of two expressions, by a test; both when the test cannot be decided. -/
def conditional (scope : Scope) (test whenTrue whenFalse : Expr) (node : Reference) :
    Eval Box := do
  let decision ← next (.expr scope test)
  match decision.truthy? with
  | some true => next (.expr scope whenTrue)
  | some false => next (.expr scope whenFalse)
  | none =>
    if setting.policy.flags.skipConditions then pure (.unknown .notEvaluated node)
    else do
      let whenTrue ← next (.expr scope whenTrue)
      let whenFalse ← next (.expr scope whenFalse)
      pure (.conditional whenTrue whenFalse (some (scope.refer test.span)) (some node))

/-- Whether an operator gives its left operand without a look at the right one. -/
def shortCircuits? (operator : Logical) (left : Box) : Option Bool :=
  match operator with
  | .and => left.truthy?.map (!·)
  | .or => left.truthy?
  | .coalesce => left.nullish?.map (!·)

/-- An operator that may leave its right operand alone. Undecided, `and` is the right operand or
undefined, and the others are either operand. -/
def logical (scope : Scope) (operator : Logical) (left right : Expr) (node : Reference) :
    Eval Box := do
  let first ← next (.expr scope left)
  match shortCircuits? operator first with
  | some true => pure first
  | some false => next (.expr scope right)
  | none =>
    if setting.policy.flags.skipConditions then pure (.unknown .notEvaluated node)
    else do
      let second ← next (.expr scope right)
      let condition := some (scope.refer left.span)
      match operator with
      | .and => pure (.conditional second .missing condition (some node))
      | .or | .coalesce => pure (.conditional first second condition (some node))

/-- The values of arguments that are all literals; the first that is none ends the evaluation. -/
def literals? (scope : Scope) : List Argument → Eval (Option (List Primitive))
  | [] => pure (some [])
  | .spread _ :: _ => pure none
  | .single value :: rest => do
    match ← next (.expr scope value) with
    | .literal value _ => do
      let others ← literals? scope rest
      pure (others.map (value :: ·))
    | _ => pure none

/-- The helper that a callee names. -/
def helper? (callee : Option Expr) : Eval (Option Helper) :=
  match callee.bind Expr.dotted? with
  | some name => Eval.helper? name
  | none => pure none

/-- A call, which is folded only with a helper. -/
def call (scope : Scope) (callee : Option Expr) (arguments : List Argument) (node : Reference) :
    Eval Box := do
  match ← helper? callee with
  | none => pure (.unknown .call node)
  | some helper =>
    match (← literals? next scope arguments).bind helper with
    | some value => pure (.literal value (some node))
    | none => pure (.unknown .call node)

/-- An expression by its form. -/
def reduce (scope : Scope) (expr : Expr) (node : Reference) : Eval Box :=
  match expr with
  | .literal _ value => pure (Box.ofResult node value.toPrimitive?)
  | .template _ quasis interpolations | .tagged _ _ quasis interpolations =>
    template next scope node "" quasis interpolations
  | .array _ items => do
    let items ← elements next scope node items
    pure (.list items (some node))
  | .object _ parts => do
    let entries ← members setting next scope node [] parts
    pure (.map entries (some node))
  | .ident _ id => name next scope id node
  | .member _ base key | .optionalMember _ base key => access setting next scope base key node
  | .optionalCall .. => pure (.unknown .call node)
  | .conditional _ test whenTrue whenFalse =>
    conditional setting next scope test whenTrue whenFalse node
  | .logical _ operator left right => logical setting next scope operator left right node
  | .binary _ operator left right => do
    let left ← next (.expr scope left)
    let right ← next (.expr scope right)
    pure (Box.binary operator node left right)
  | .unary _ .void _ => pure (.undefinedAt node)
  | .unary _ operator operand => do
    let value ← next (.expr scope operand)
    pure (value.unary operator node)
  | .call _ callee arguments => call next scope callee arguments node
  | .assign .. | .update .. | .wrapped .. | .definition .. | .other .. =>
    pure (.unknown .unsupported node)

/-- An expression: parentheses and types around it are ignored, then flags, gate and overrides
have their say, and what is inside it is evaluated within it. -/
def expression (scope : Scope) (expr : Expr) : Eval Box := do
  let expr := expr.unwrap
  let node := scope.refer expr.span
  if setting.policy.flags.skipEvaluate then pure (.unknown .notEvaluated node)
  else if ← Eval.allowed setting.policy expr then do
    let run ← get
    Eval.overriding (setting.policy.overridesFor expr run.stack)
      (Run.within node (reduce setting next scope expr node))
  else pure (.unknown .denied node)

/-- The value that a declaration takes apart; without one it is undefined. -/
def initial (scope : Scope) (binding : Variable) (node : Reference) : Eval Box :=
  match binding.init with
  | some init => next (.expr scope init)
  | none => pure (.undefinedAt node)

/-- A declared name: the part of the declared value that the name binds, and the default when that
part is undefined. -/
def declared (scope : Scope) (binding : Variable) (node : Reference) : Eval Box := do
  let whole ← initial next scope binding node
  let part := binding.part node whole
  match binding.fallback, part with
  | some fallback, .literal .undefined _ => next (.expr scope fallback)
  | _, _ => pure part

/-- An export of another module, named by an import. -/
def forward (scope : Scope) (source : String) (imported : Imported) (node : Reference) :
    Eval Box :=
  match setting.target? scope source with
  | none => pure (.unknown .unbound node)
  | some path =>
    match imported.exportName? with
    | some name => next (.exported path name node)
    | none => next (.whole path node)

/-- What a name stands for. A name that changes after its declaration has no constant value. -/
def binding (scope : Scope) (id : Id) (node : Reference) : Eval Box :=
  match scope.binding? id with
  | some (.variable value) =>
    if scope.isReassigned id then pure (.unknown .unbound node)
    else guard (.binding scope.file.components id) node (declared next scope value node)
  | some (.imported source imported) => forward setting next scope source imported node
  | some .sealed | none => pure (.unknown .unbound node)

/-- The first of several modules that exports a name, in their order. -/
def search (scope : Scope) (name : String) (node : Reference) : List String → Eval Box
  | [] => pure (.unknown .unbound node)
  | source :: rest =>
    match setting.target? scope source with
    | none => search scope name node rest
    | some path => do
      let box ← next (.exported path name node)
      if box.reason? = some .unbound then search scope name node rest else pure box

/-- What a module exports under a name, itself or through the modules that it exports as a whole;
those do not give it a default export. -/
def exported (path : Path) (name : String) (node : Reference) : Eval Box :=
  let scope := setting.project.scope path
  guard (.exported scope.file.components name) node <|
    match scope.export? name with
    | some (.binding id) => next (.binding scope id node)
    | some (.forward source imported) => forward setting next scope source imported node
    | some (.value expr) => next (.expr scope expr)
    | none =>
      if name = standardName then pure (.unknown .unbound node)
      else search setting next scope name node scope.stars

/-- The values of exports under their names. -/
def exports (path : Path) (node : Reference) : List String → Eval (List (String × Box))
  | [] => pure []
  | name :: rest => do
    let value ← next (.exported path name node)
    let others ← exports path node rest
    pure ((name, value) :: others)

/-- Everything that a module exports by name, as one map. -/
def whole (path : Path) (node : Reference) : Eval Box :=
  let scope := setting.project.scope path
  guard (.whole scope.file.components) node do
    let entries ← exports next scope.file node (Entries.keys scope.exports)
    pure (.map entries (some node))

/-- One step of evaluation; `next` evaluates what the step needs. -/
def step : Task → Eval Box
  | .expr scope expr => expression setting next scope expr
  | .binding scope id node => binding setting guard next scope id node
  | .exported path name node => exported setting guard next path name node
  | .whole path node => whole setting guard next path node

end

/-- Evaluates a task in at most `fuel` nested steps. -/
def run (setting : Setting) (guard : Guard) : Nat → Task → Eval Box
  | 0 => fun _ => failure
  | fuel + 1 => step setting guard (run setting guard fuel)

end Evaluation

end Glean
