import EmailTemplates.Email
import EmailTemplates.Source.Literal
import EmailTemplates.Source.Marker
import EmailTemplates.Source.Quoted
import EmailTemplates.Source.Words
import EmailTemplates.Variable.Reference

namespace EmailTemplates

namespace Source

def quoted (value : String) : String :=
  .ofList (Quoted.encode value.toList)

def constLine (name value : String) : String :=
  "export const " ++ name ++ " = " ++ quoted value ++ ";\n"

def optionalConstLine (name : String) (value : Option String) : String :=
  (value.map (constLine name)).getD ""

def fieldLine (name value : String) : String :=
  "  " ++ name ++ ": " ++ quoted value ++ ",\n"

def optionalFieldLine (name : String) (value : Option String) : String :=
  (value.map (fieldLine name)).getD ""

def allDeclarations (t : Template) : List VariableDeclaration :=
  t.declarations ++ (t.variableNames.filter fun name => !t.declares name).map fun name =>
    ⟨name, ((Variable.lookup? name).map (·.kind)).getD .text, false⟩

def memberLine (v : VariableDeclaration) : String :=
  "  " ++ v.name ++ (if v.optional then "?" else "") ++ ": string; // " ++ v.kind.id ++ "\n"

def interfaceText (name : String) (declarations : List VariableDeclaration) : String :=
  if declarations.isEmpty then "export interface " ++ name ++ " \x7b\x7d\n"
  else
    "export interface " ++ name ++ " \x7b\n" ++ .join (declarations.map memberLine) ++ "\x7d\n"

/-- A scheme of its own that is the template's as well shows in the marker only. -/
def markedScheme (scheme : ColorScheme) (b : Block) : Option ColorScheme :=
  match b.content with
  | .button _ _ own | .link _ _ own => own.filter (· = scheme)
  | _ => none

def markerLine (scheme : ColorScheme) (b : Block) : String :=
  if Marker.canName b.id then Marker.text ⟨b.id, markedScheme scheme b⟩ ++ "\n" else ""

def literalText (fragment : Markup) : String :=
  .ofList (Literal.encode (Filling.preserve.markup fragment).toList)

def contentText (scheme : ColorScheme) : List (Block × Markup) → String
  | [] => ""
  | (b, fragment) :: rest =>
    markerLine scheme b ++ literalText fragment ++ contentText scheme rest

end Source

namespace Template

open Source

def moduleText (t : Template) (fragments : List Markup) : String :=
  let interface := interfaceName t.slug
  "/*\n * " ++ t.slug ++ ".ts\n" ++
    " * Generated from the block model. Re-import to edit.\n */\n\n" ++
    constLine "slug" t.slug ++
    constLine "name" t.name ++
    optionalConstLine "description" t.description ++
    optionalConstLine "context" t.context ++
    constLine "colorScheme" t.colorScheme.id ++ "\n" ++
    interfaceText interface (allDeclarations t) ++ "\n" ++
    constLine "subject" t.subject ++
    optionalConstLine "preheader" t.preheader ++ "\n" ++
    "export const header = \x7b\n" ++
    optionalFieldLine "emoji" t.header.emoji ++
    fieldLine "title" t.header.title ++
    optionalFieldLine "subtitle" t.header.subtitle ++ "\x7d;\n\n" ++
    constLine "footer" t.footer.kind.id ++
    optionalConstLine "footerNote" t.footer.note ++ "\n" ++
    "export function renderContent(data: " ++ interface ++ "): string \x7b\n  return `\n" ++
    contentText t.colorScheme (t.blocks.zip fragments) ++ "`;\n\x7d\n"

def generate (t : Template) : Except RenderError String := do
  t.check
  return t.moduleText (← t.fragments)

end Template

end EmailTemplates
