import EmailTemplates.Block.Codec
import EmailTemplates.Draft.Basic

namespace EmailTemplates.EditCommand

def toJson : EditCommand → Json
  | insertBlock index block =>
    .object [("command", .string "insert-block"), ("index", .nat index.toNat),
      ("block", block.toJson)]
  | replaceBlock block =>
    .object [("command", .string "replace-block"), ("block", block.toJson)]
  | moveBlock id target =>
    .object [("command", .string "move-block"), ("id", .string id), ("to", .nat target.toNat)]
  | removeBlock id => .object [("command", .string "remove-block"), ("id", .string id)]
  | setSubject subject =>
    .object [("command", .string "set-subject"), ("subject", .string subject)]
  | setPreheader preheader =>
    .object [("command", .string "set-preheader"),
      ("preheader", (preheader.map Json.string).getD .null)]
  | setColorScheme scheme =>
    .object [("command", .string "set-color-scheme"), ("color_scheme", scheme.toJson)]

def index? (j : Json) : Option UInt64 :=
  (j.natBelow? UInt64.size).map UInt64.ofNat

def read? (j : Json) : Option EditCommand := do
  let (tag, rest) ← (← j.wholly? Json.maxDepth).tagged? "command" [] false
  match tag with
  | "insert-block" =>
    let r ← Record.ofJson? ["index", "block"] rest
    return .insertBlock (← r.required "index" index?) (← r.required "block" (Block.ofJson? true))
  | "replace-block" =>
    let r ← Record.ofJson? ["block"] rest
    return .replaceBlock (← r.required "block" (Block.ofJson? true))
  | "move-block" =>
    let r ← Record.ofJson? ["id", "to"] rest
    return .moveBlock (← r.required "id" Json.string?) (← r.required "to" index?)
  | "remove-block" =>
    let r ← Record.ofJson? ["id"] rest
    return .removeBlock (← r.required "id" Json.string?)
  | "set-subject" =>
    let r ← Record.ofJson? ["subject"] rest
    return .setSubject (← r.required "subject" Json.string?)
  | "set-preheader" =>
    let r ← Record.ofJson? ["preheader"] rest
    return .setPreheader (← r.optionalInList "preheader" Json.string?)
  | "set-color-scheme" =>
    let r ← Record.ofJson? ["color_scheme"] rest
    return .setColorScheme (← r.required "color_scheme" (ColorScheme.ofJson? true))
  | _ => none

end EmailTemplates.EditCommand
