import EmailTemplates.Proofs.Source.Content
import EmailTemplates.Proofs.Source.Fields
import EmailTemplates.Proofs.Source.Members

namespace EmailTemplates.Source

open EmailTemplates.Text (Slice byteLength isBlank isNameChar)
open Line (written written_append)

variable {cs rest : List Char}

def constantLines (ps : List (String × String)) : List Line :=
  ps.map fun p => .constant p.1 p.2

theorem toList_constLine (name value : String) :
    (constLine name value).toList = (Line.constant name value).chars ++ ['\n'] := by
  have hopen : ("export const " : String).toList =
      "export".toList ++ ' ' :: ("const".toList ++ [' ']) := rfl
  have hsign : (" = " : String).toList = [' ', '=', ' '] := rfl
  have hend : (";\n" : String).toList = [';', '\n'] := rfl
  unfold constLine quoted Line.chars
  simp only [String.toList_append, String.toList_ofList, hopen, hsign, hend, List.append_assoc,
    List.cons_append, List.nil_append]

theorem written_constantLines_cons (p : String × String) (ps : List (String × String)) :
    written (constantLines (p :: ps)) =
      (constLine p.1 p.2).toList ++ written (constantLines ps) := by
  rw [toList_constLine]
  exact List.flatMap_cons

theorem written_optionalPair_append (name : String) (value : Option String)
    (ps : List (String × String)) : written (constantLines (optionalPair name value ++ ps)) =
      (optionalConstLine name value).toList ++ written (constantLines ps) := by
  cases value with
  | none => rfl
  | some value => exact written_constantLines_cons (name, value) ps

theorem toList_fieldLine (name value : String) :
    (fieldLine name value).toList = Field.chars (name, value) ++ ['\n'] := by
  have hindent : ("  " : String).toList = [' ', ' '] := rfl
  have hsign : (": " : String).toList = [':', ' '] := rfl
  have hend : (",\n" : String).toList = [',', '\n'] := rfl
  unfold fieldLine quoted Field.chars
  simp only [String.toList_append, String.toList_ofList, hindent, hsign, hend, List.append_assoc,
    List.cons_append, List.nil_append]

theorem toList_memberLine (v : VariableDeclaration) :
    (memberLine v).toList = Member.chars v ++ ['\n'] := by
  have hindent : ("  " : String).toList = [' ', ' '] := rfl
  have htype : (": string; // " : String).toList =
      ':' :: ' ' :: ("string".toList ++ ';' :: ' ' :: ("//".toList ++ [' '])) := rfl
  have hend : ("\n" : String).toList = ['\n'] := rfl
  have hmark : (if v.optional then "?" else "" : String).toList =
      if v.optional then ['?'] else [] := by
    cases v.optional <;> rfl
  unfold memberLine Member.chars
  simp only [String.toList_append, hindent, htype, hend, hmark, List.append_assoc,
    List.cons_append, List.nil_append]

theorem toList_interfaceText (name : String) (vs : List VariableDeclaration) :
    (interfaceText name vs).toList = written (interfaceLines name.toList vs) := by
  have hwritten := written_interfaceLines name.toList vs []
  have hopen : ("export interface " : String).toList =
      "export".toList ++ ' ' :: ("interface".toList ++ [' ']) := rfl
  have hempty : (" \x7b\x7d\n" : String).toList = [' ', '{', '\x7d', '\n'] := rfl
  have hbrace : (" \x7b\n" : String).toList = [' ', '{', '\n'] := rfl
  have hend : ("\x7d\n" : String).toList = ['\x7d', '\n'] := rfl
  have hmembers : (String.join (vs.map memberLine)).toList =
      vs.flatMap fun v => Member.chars v ++ ['\n'] := by
    rw [String.toList_join, List.flatMap_map]
    exact congrArg (vs.flatMap ·) (funext toList_memberLine)
  rw [List.append_nil] at hwritten
  rw [hwritten]
  unfold interfaceText interfaceBody
  split
  · simp only [String.toList_append, hopen, hempty, List.append_assoc, List.cons_append,
      List.nil_append]
  · simp only [String.toList_append, hopen, hbrace, hend, hmembers, List.append_assoc,
      List.cons_append, List.nil_append]

theorem body_optionalPair_append (name : String) (value : Option String)
    (fs : List (String × String)) : Field.body (optionalPair name value ++ fs) =
      (optionalFieldLine name value).toList ++ Field.body fs := by
  cases value with
  | none => rfl
  | some value =>
    have hline : (optionalFieldLine name (some value)).toList = _ := toList_fieldLine name value
    rw [hline]
    exact List.flatMap_cons

theorem body_headerFields (h : Header) : Field.body (headerFields h) =
    (optionalFieldLine "emoji" h.emoji).toList ++ ((fieldLine "title" h.title).toList ++
      (optionalFieldLine "subtitle" h.subtitle).toList) := by
  have htitle : Field.body (("title", h.title) :: optionalPair "subtitle" h.subtitle) =
      (fieldLine "title" h.title).toList ++ Field.body (optionalPair "subtitle" h.subtitle) := by
    rw [toList_fieldLine]
    exact List.flatMap_cons
  have hsubtitle := body_optionalPair_append "subtitle" h.subtitle []
  have hnil : Field.body [] = [] := rfl
  rw [List.append_nil, hnil, List.append_nil] at hsubtitle
  rw [headerFields, body_optionalPair_append, htitle, hsubtitle]

def constantBlock (ps : List (String × String)) : List Line :=
  .loose [] :: (constantLines ps ++ [.loose []])

theorem written_constantBlock (ps : List (String × String)) :
    written (constantBlock ps) = '\n' :: (written (constantLines ps) ++ ['\n']) := by
  rw [constantBlock, ← List.append_nil (written _), Line.written_cons, written_append]
  rw [List.append_nil]
  rfl

def commentLines (slug : String) : List Line :=
  [.loose "/*".toList, .loose (" * ".toList ++ (slug.toList ++ ".ts".toList)),
   .loose " * Generated from the block model. Re-import to edit.".toList, .loose " */".toList]

def openingPairs (t : Template) : List (String × String) :=
  ("slug", t.slug) :: ("name", t.name) :: (optionalPair "description" t.description ++
    (optionalPair "context" t.context ++ [("colorScheme", t.colorScheme.id)]))

def subjectPairs (t : Template) : List (String × String) :=
  ("subject", t.subject) :: optionalPair "preheader" t.preheader

def footerPairs (t : Template) : List (String × String) :=
  ("footer", t.footer.kind.id) :: optionalPair "footerNote" t.footer.note

def nameChars (t : Template) : List Char :=
  (interfaceName t.slug).toList

def functionHead (name rest : List Char) : List Char :=
  "function".toList ++ ' ' :: ("renderContent".toList ++ '(' ::
    ("data: ".toList ++ name ++ ')' :: ':' :: ' ' :: ("string".toList ++ ' ' :: '{' :: '\n' ::
      ' ' :: ' ' :: ("return".toList ++ ' ' :: '`' :: rest))))

def contentHead (name rest : List Char) : List Char :=
  "export".toList ++ ' ' :: functionHead name rest

theorem written_openingPairs (t : Template) : written (constantLines (openingPairs t)) =
    (constLine "slug" t.slug).toList ++ ((constLine "name" t.name).toList ++
      ((optionalConstLine "description" t.description).toList ++
        ((optionalConstLine "context" t.context).toList ++
          (constLine "colorScheme" t.colorScheme.id).toList))) := by
  have hscheme := written_constantLines_cons ("colorScheme", t.colorScheme.id) []
  have hnil : written (constantLines []) = [] := rfl
  rw [hnil, List.append_nil] at hscheme
  rw [openingPairs, written_constantLines_cons, written_constantLines_cons,
    written_optionalPair_append, written_optionalPair_append, hscheme]

theorem written_pair (p : String × String) (name : String) (value : Option String) :
    written (constantLines (p :: optionalPair name value)) =
      (constLine p.1 p.2).toList ++ (optionalConstLine name value).toList := by
  have hoptional := written_optionalPair_append name value []
  have hnil : written (constantLines []) = [] := rfl
  rw [List.append_nil, hnil, List.append_nil] at hoptional
  rw [written_constantLines_cons, hoptional]

theorem written_commentLines (slug : String) : written (commentLines slug) =
    "/*".toList ++ '\n' :: (" * ".toList ++ (slug.toList ++ (".ts".toList ++
      '\n' :: (" * Generated from the block model. Re-import to edit.".toList ++
        '\n' :: (" */".toList ++ ['\n']))))) := by
  have hwritten (as bs cs ds es fs : List Char) :
      written [.loose as, .loose (bs ++ (cs ++ ds)), .loose es, .loose fs] =
        as ++ '\n' :: (bs ++ (cs ++ (ds ++ '\n' :: (es ++ '\n' :: (fs ++ ['\n']))))) := by
    simp [written]
  exact hwritten _ _ _ _ _ _

theorem toList_moduleText (t : Template) (fragments : List Markup) :
    (t.moduleText fragments).toList = written (commentLines t.slug) ++
      (written (constantBlock (openingPairs t)) ++
        (written (interfaceLines (nameChars t) (allDeclarations t)) ++
          (written (constantBlock (subjectPairs t)) ++ (written (headerLines t.header) ++
            (written (constantBlock (footerPairs t)) ++ contentHead (nameChars t) ('\n' ::
              ((contentText t.colorScheme (t.blocks.zip fragments)).toList ++
                '`' :: [';', '\n', '\x7d', '\n']))))))) := by
  have hcomment : ("/*\n * " : String).toList = "/*".toList ++ '\n' :: " * ".toList := rfl
  have hslug : (".ts\n" : String).toList = ".ts".toList ++ ['\n'] := rfl
  have hgenerated : (" * Generated from the block model. Re-import to edit.\n */\n\n" :
      String).toList = " * Generated from the block model. Re-import to edit.".toList ++
        '\n' :: (" */".toList ++ ['\n', '\n']) := rfl
  have hbreak : ("\n" : String).toList = ['\n'] := rfl
  have hheader : ("export const header = \x7b\n" : String).toList = "export".toList ++ ' ' ::
      ("const".toList ++ ' ' :: ("header".toList ++ [' ', '=', ' ', '{', '\n'])) := rfl
  have hclose : ("\x7d;\n\n" : String).toList = ['\x7d', ';', '\n', '\n'] := rfl
  have hfunction : ("export function renderContent(data: " : String).toList = "export".toList ++
      ' ' :: ("function".toList ++ ' ' :: ("renderContent".toList ++ '(' :: "data: ".toList)) := rfl
  have hreturn : ("): string \x7b\n  return `\n" : String).toList = ')' :: ':' :: ' ' ::
      ("string".toList ++ ' ' :: '{' :: '\n' :: ' ' :: ' ' ::
        ("return".toList ++ [' ', '`', '\n'])) := rfl
  have hend : ("`;\n\x7d\n" : String).toList = ['`', ';', '\n', '\x7d', '\n'] := rfl
  unfold Template.moduleText contentHead functionHead subjectPairs footerPairs nameChars
  simp only [String.toList_append, toList_interfaceText, written_commentLines,
    written_constantBlock, written_openingPairs, written_pair, written_headerLines,
    body_headerFields, hcomment, hslug, hgenerated, hbreak, hheader, hclose, hfunction, hreturn,
    hend, List.append_assoc, List.cons_append, List.nil_append]

end EmailTemplates.Source
