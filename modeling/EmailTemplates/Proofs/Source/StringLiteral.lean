import EmailTemplates.Text.Hex
import EmailTemplates.Proofs.Source.Module
import EmailTemplates.Proofs.Source.Usable
import EmailTemplates.Proofs.SystemTemplate

namespace EmailTemplates

namespace Source

namespace Script

open EmailTemplates.Text (hexNumber?)

variable {barred cs body rest : List Char} {c : Char}

def breaks : List Char :=
  ['\n', '\r']

def lineEnds : List Char :=
  ['\n', '\r', '\u2028', '\u2029']

inductive Characters (barred : List Char) : List Char → Prop
  | nil : Characters barred []
  | plain {c : Char} {cs : List Char} : c ≠ '\'' → c ≠ '\\' → c ∉ barred →
      Characters barred cs → Characters barred (c :: cs)
  | escaped {c : Char} {cs : List Char} : c.isDigit = false → c ≠ 'x' → c ≠ 'u' → c ∉ lineEnds →
      Characters barred cs → Characters barred ('\\' :: c :: cs)
  | null {cs : List Char} : (∀ c ∈ cs.head?, c.isDigit = false) →
      Characters barred cs → Characters barred ('\\' :: '0' :: cs)
  | hex {digits cs : List Char} : digits.length = 2 → (hexNumber? digits).isSome →
      Characters barred cs → Characters barred ('\\' :: 'x' :: (digits ++ cs))
  | unicode {digits cs : List Char} : digits.length = 4 → (hexNumber? digits).isSome →
      Characters barred cs → Characters barred ('\\' :: 'u' :: (digits ++ cs))
  | codePoint {digits cs : List Char} {n : Nat} : digits ≠ [] → hexNumber? digits = some n →
      n ≤ 0x10FFFF → Characters barred cs →
      Characters barred ('\\' :: 'u' :: '{' :: (digits ++ '\x7d' :: cs))
  | continued {c : Char} {cs : List Char} : c ∈ lineEnds →
      Characters barred cs → Characters barred ('\\' :: c :: cs)
  | continuedCarriage {cs : List Char} :
      Characters barred cs → Characters barred ('\\' :: '\r' :: '\n' :: cs)

def Begins (barred cs body rest : List Char) : Prop :=
  cs = '\'' :: (body ++ '\'' :: rest) ∧ Characters barred body

namespace Characters

theorem cons_iff (hc : c ≠ '\\') :
    Characters barred (c :: cs) ↔ c ≠ '\'' ∧ c ∉ barred ∧ Characters barred cs := by
  constructor
  · intro h
    cases h with
    | plain hquote _ hbarred hcs => exact ⟨hquote, hbarred, hcs⟩
    | escaped => exact absurd rfl hc
    | null => exact absurd rfl hc
    | hex => exact absurd rfl hc
    | unicode => exact absurd rfl hc
    | codePoint => exact absurd rfl hc
    | continued => exact absurd rfl hc
    | continuedCarriage => exact absurd rfl hc
  · rintro ⟨hquote, hbarred, hcs⟩
    exact .plain hquote hc hbarred hcs

theorem marked_iff (hc : c ∈ Quoted.marked) :
    Characters barred ('\\' :: c :: cs) ↔ Characters barred cs := by
  have hall : ∀ c ∈ Quoted.marked, c.isDigit = false ∧ c ≠ 'x' ∧ c ≠ 'u' ∧ c ∉ lineEnds := by decide
  obtain ⟨hdigit, hx, hu, hend⟩ := hall c hc
  constructor
  · intro h
    cases h with
    | plain _ hmark => exact absurd rfl hmark
    | escaped _ _ _ _ hcs => exact hcs
    | null => exact absurd hdigit (by decide)
    | hex => exact absurd rfl hx
    | unicode => exact absurd rfl hu
    | codePoint => exact absurd rfl hu
    | continued hmem => exact absurd hmem hend
    | continuedCarriage => exact absurd (by decide) hend
  · exact .escaped hdigit hx hu hend

theorem not_lone_mark : ¬ Characters barred ['\\'] := by
  intro h
  cases h with
  | plain _ hmark => exact hmark rfl

end Characters

theorem escapeChar_append {xs : List Char} :
    Quoted.escapeChar c ++ xs = body ++ '\'' :: rest ∧ Characters barred body ↔
      ∃ more, body = Quoted.escapeChar c ++ more ∧
        (xs = more ++ '\'' :: rest ∧ Characters barred more) ∧
        (c ∈ barred → Quoted.escapeChar c ≠ [c]) := by
  rcases Quoted.escapeChar_cases c with ⟨hc, hmark, hquote, -⟩ | ⟨d, hd, hc⟩
  · rw [hc]
    constructor
    · rintro ⟨heq, hbody⟩
      cases body with
      | nil => exact absurd (List.cons.inj heq).1 hquote
      | cons b body =>
        obtain ⟨rfl, hxs⟩ := List.cons.inj heq
        obtain ⟨-, hbarred, hmore⟩ := (Characters.cons_iff hmark).mp hbody
        exact ⟨body, rfl, ⟨hxs, hmore⟩, fun h => absurd h hbarred⟩
    · rintro ⟨more, rfl, ⟨rfl, hmore⟩, hbarred⟩
      exact ⟨rfl, (Characters.cons_iff hmark).mpr
        ⟨hquote, fun h => hbarred h rfl, hmore⟩⟩
  · rw [hc]
    constructor
    · rintro ⟨heq, hbody⟩
      match body with
      | [] => cases (List.cons.inj heq).1
      | [b] =>
        obtain ⟨rfl, -⟩ := List.cons.inj heq
        exact absurd hbody Characters.not_lone_mark
      | b :: b' :: body =>
        obtain ⟨rfl, hbehind⟩ := List.cons.inj heq
        obtain ⟨rfl, hxs⟩ := List.cons.inj hbehind
        exact ⟨body, rfl, ⟨hxs, (Characters.marked_iff hd).mp hbody⟩, fun _ => by simp⟩
    · rintro ⟨more, rfl, ⟨rfl, hmore⟩, -⟩
      exact ⟨rfl, (Characters.marked_iff hd).mpr hmore⟩

theorem escape_append {value tail : List Char} :
    Quoted.escape value ++ '\'' :: tail = body ++ '\'' :: rest ∧ Characters barred body ↔
      (∀ c ∈ value, c ∈ barred → Quoted.escapeChar c ≠ [c]) ∧
        body = Quoted.escape value ∧ rest = tail := by
  induction value generalizing body with
  | nil =>
    rw [Quoted.escape_nil, List.nil_append]
    constructor
    · rintro ⟨heq, hbody⟩
      cases body with
      | nil => exact ⟨by simp, rfl, (List.cons.inj heq).2.symm⟩
      | cons b body =>
        obtain ⟨rfl, -⟩ := List.cons.inj heq
        exact absurd rfl ((Characters.cons_iff (by decide)).mp hbody).1
    · rintro ⟨-, rfl, rfl⟩
      exact ⟨rfl, .nil⟩
  | cons c value ih =>
    rw [Quoted.escape_cons, List.append_assoc, escapeChar_append, List.forall_mem_cons]
    constructor
    · rintro ⟨more, rfl, hmore, hc⟩
      obtain ⟨hvalue, rfl, rfl⟩ := ih.mp hmore
      exact ⟨⟨hc, hvalue⟩, rfl, rfl⟩
    · rintro ⟨⟨hc, hvalue⟩, rfl, rfl⟩
      exact ⟨_, rfl, ih.mpr ⟨hvalue, rfl, rfl⟩, hc⟩

theorem begins_encode {value tail : List Char} :
    Begins barred (Quoted.encode value ++ tail) body rest ↔
      (∀ c ∈ value, c ∈ barred → Quoted.escapeChar c ≠ [c]) ∧
        body = Quoted.escape value ∧ rest = tail := by
  have hchars : Quoted.encode value ++ tail = '\'' :: (Quoted.escape value ++ '\'' :: tail) := by
    simp [Quoted.encode]
  rw [Begins, hchars, List.cons_inj_right, escape_append]

theorem begins_encode_feed {value tail : List Char} :
    Begins ['\n'] (Quoted.encode value ++ tail) body rest ↔
      body = Quoted.escape value ∧ rest = tail := by
  have hfeed : ∀ c ∈ value, c ∈ ['\n'] → Quoted.escapeChar c ≠ [c] := by
    rintro c - hc
    rw [List.mem_singleton.mp hc]
    decide
  rw [begins_encode]
  exact and_iff_right hfeed

theorem begins_encode_breaks {value tail : List Char} :
    Begins breaks (Quoted.encode value ++ tail) body rest ↔
      '\r' ∉ value ∧ body = Quoted.escape value ∧ rest = tail := by
  have hbreaks : (∀ c ∈ value, c ∈ breaks → Quoted.escapeChar c ≠ [c]) ↔ '\r' ∉ value := by
    constructor
    · intro h hmem
      exact h '\r' hmem (by decide) (by decide)
    · intro h c hc hbreak
      simp only [breaks, List.mem_cons, List.not_mem_nil, or_false] at hbreak
      rcases hbreak with rfl | rfl
      · decide
      · exact absurd hc h
  rw [begins_encode, hbreaks]

theorem feed_not_mem_encode (value : List Char) : '\n' ∉ Quoted.encode value := by
  simp [Quoted.encode, Quoted.not_mem_escape]

theorem return_mem_encode {value : List Char} : '\r' ∈ Quoted.encode value ↔ '\r' ∈ value := by
  have hchar (c : Char) : '\r' ∈ Quoted.escapeChar c ↔ '\r' = c := by
    rcases Quoted.escapeChar_cases c with ⟨hc, -⟩ | ⟨d, hd, hc⟩
    · rw [hc, List.mem_singleton]
    · have hall : ∀ d ∈ Quoted.marked, '\r' ∉ ['\\', d] := by decide
      rw [hc]
      refine iff_of_false (hall d hd) ?_
      rintro rfl
      revert hc
      decide +revert
  simp only [Quoted.encode, Quoted.escape, List.mem_append, List.mem_cons, List.mem_flatMap, hchar]
  simp

end Script

/-- A stretch of a module: a literal in quotes, or what stands between two of them. -/
inductive Part where
  | code (cs : List Char)
  | literal (name value : String)

namespace Part

def chars : Part → List Char
  | code cs => cs
  | literal _ value => Quoted.encode value.toList

def literal? : Part → Option (String × String)
  | code _ => none
  | literal name value => some (name, value)

def written (parts : List Part) : List Char :=
  parts.flatMap chars

theorem written_append (ps qs : List Part) : written (ps ++ qs) = written ps ++ written qs :=
  List.flatMap_append

theorem written_cons (p : Part) (ps : List Part) : written (p :: ps) = p.chars ++ written ps :=
  List.flatMap_cons

def ofConstant (p : String × String) : List Part :=
  [.code ("export const ".toList ++ (p.1.toList ++ " = ".toList)), .literal p.1 p.2,
    .code ";\n".toList]

def ofField (p : String × String) : List Part :=
  [.code ("  ".toList ++ (p.1.toList ++ ": ".toList)), .literal p.1 p.2, .code ",\n".toList]

theorem written_ofConstant (ps : List (String × String)) :
    written (ps.flatMap ofConstant) = Line.written (constantLines ps) := by
  induction ps with
  | nil => rfl
  | cons p ps ih =>
    rw [List.flatMap_cons, written_append, ih, written_constantLines_cons]
    congr 1
    unfold constLine quoted
    simp [written, chars, ofConstant]

theorem written_ofField (ps : List (String × String)) :
    written (ps.flatMap ofField) = Field.body ps := by
  induction ps with
  | nil => rfl
  | cons p ps ih =>
    have hbody : Field.body (p :: ps) = Field.chars p ++ ['\n'] ++ Field.body ps :=
      List.flatMap_cons
    rw [List.flatMap_cons, written_append, ih, hbody]
    congr 1
    simp [written, chars, ofField, Field.chars]

theorem literals_flatMap {f : String × String → List Part}
    (h : ∀ p, (f p).filterMap literal? = [p]) (ps : List (String × String)) :
    (ps.flatMap f).filterMap literal? = ps := by
  rw [List.filterMap_flatMap]
  simp only [h]
  exact List.flatMap_singleton' ps

end Part

end Source

namespace Template

open Source

def quotedValues (t : Template) : List (String × String) :=
  openingPairs t ++ (subjectPairs t ++ (headerFields t.header ++ footerPairs t))

def moduleParts (t : Template) (fragments : List Markup) : List Part :=
  .code (Line.written (commentLines t.slug) ++ ['\n']) ::
    ((openingPairs t).flatMap Part.ofConstant ++
  .code ('\n' :: (Line.written (interfaceLines (nameChars t) (allDeclarations t)) ++ ['\n'])) ::
    ((subjectPairs t).flatMap Part.ofConstant ++
  .code "\nexport const header = \x7b\n".toList ::
    ((headerFields t.header).flatMap Part.ofField ++
  .code "\x7d;\n\n".toList ::
    ((footerPairs t).flatMap Part.ofConstant ++
  [.code ('\n' :: contentHead (nameChars t) ('\n' ::
    ((contentText t.colorScheme (t.blocks.zip fragments)).toList ++
      '`' :: [';', '\n', '\x7d', '\n'])))]))))

theorem toList_moduleText_parts (t : Template) (fragments : List Markup) :
    (t.moduleText fragments).toList = Part.written (t.moduleParts fragments) := by
  have hheader : ("\nexport const header = \x7b\n" : String).toList = '\n' :: ("export".toList ++
      ' ' :: ("const".toList ++ ' ' :: ("header".toList ++ [' ', '=', ' ', '{', '\n']))) := rfl
  have hclose : ("\x7d;\n\n" : String).toList = ['\x7d', ';', '\n', '\n'] := rfl
  have hnil : Part.written [] = [] := rfl
  rw [toList_moduleText]
  simp only [moduleParts, Part.written_cons, Part.written_append, Part.chars,
    Part.written_ofConstant, Part.written_ofField, written_constantBlock, written_headerLines,
    hheader, hclose, hnil, List.append_assoc, List.cons_append, List.nil_append, List.append_nil]

theorem literals_moduleParts (t : Template) (fragments : List Markup) :
    (t.moduleParts fragments).filterMap Part.literal? = t.quotedValues := by
  have hconstant := Part.literals_flatMap (f := Part.ofConstant) fun _ => rfl
  have hfield := Part.literals_flatMap (f := Part.ofField) fun _ => rfl
  have hcode (cs : List Char) (parts : List Part) :
      (Part.code cs :: parts).filterMap Part.literal? = parts.filterMap Part.literal? := rfl
  simp only [moduleParts, quotedValues, hcode, List.filterMap_append, hconstant, hfield,
    List.filterMap_nil, List.append_nil]

theorem moduleParts_name (t : Template) (fragments : List Markup) : ∃ before after,
    t.moduleParts fragments = before ++ .code "export const name = ".toList ::
      .literal "name" t.name :: .code ";\n".toList :: after := by
  have hcode : "export const ".toList ++ ("name".toList ++ " = ".toList) =
      "export const name = ".toList := by decide
  have hname : Part.ofConstant ("name", t.name) = [.code "export const name = ".toList,
      .literal "name" t.name, .code ";\n".toList] := by
    rw [Part.ofConstant, hcode]
  rw [moduleParts, openingPairs, List.flatMap_cons, List.flatMap_cons, hname]
  exact ⟨.code _ :: Part.ofConstant ("slug", t.slug), _, rfl⟩

theorem literals_of_generate {t : Template} {source : String} (h : t.generate = .ok source) :
    ∃ fragments, t.fragments = .ok fragments ∧
      source.toList = Part.written (t.moduleParts fragments) ∧
      (t.moduleParts fragments).filterMap Part.literal? = t.quotedValues ∧
      ∀ before name value after,
        t.moduleParts fragments = before ++ .literal name value :: after →
          '\n' ∉ Quoted.encode value.toList ∧
          ('\r' ∈ Quoted.encode value.toList ↔ '\r' ∈ value.toList) ∧
          ∀ body rest,
            (Script.Begins ['\n'] (Part.written (.literal name value :: after)) body rest ↔
              body = Quoted.escape value.toList ∧ rest = Part.written after) ∧
            (Script.Begins Script.breaks (Part.written (.literal name value :: after)) body rest ↔
              '\r' ∉ value.toList ∧ body = Quoted.escape value.toList ∧
                rest = Part.written after) := by
  obtain ⟨-, fragments, hfragments, rfl⟩ := generate_eq_ok.mp h
  refine ⟨fragments, fragments_eq_ok.mpr hfragments, toList_moduleText_parts t fragments,
    literals_moduleParts t fragments, fun before name value after _ => ?_⟩
  exact ⟨Script.feed_not_mem_encode _, Script.return_mem_encode, fun body rest =>
    ⟨Script.begins_encode_feed, Script.begins_encode_breaks⟩⟩

def markedWelcome : Template :=
  { SystemTemplate.welcome.starter with name := "Don't \\ stop\n" }

theorem literals_of_generate_markedWelcome :
    ∃ source before rest, markedWelcome.generate = .ok source ∧
      source.toList = before ++ ("'Don\\'t \\\\ stop\\n'".toList ++ rest) ∧
      Script.Begins Script.breaks ("'Don\\'t \\\\ stop\\n'".toList ++ rest)
        "Don\\'t \\\\ stop\\n".toList rest := by
  have hg : markedWelcome.generate = .ok _ :=
    generate_eq_ok.mpr ⟨rfl, _, SystemTemplate.fragments_starter SystemTemplate.welcome, rfl⟩
  obtain ⟨fragments, -, hsource, -, h⟩ := literals_of_generate hg
  obtain ⟨before, after, hparts⟩ := moduleParts_name markedWelcome fragments
  rw [← List.singleton_append, ← List.append_assoc] at hparts
  obtain ⟨-, -, hbegins⟩ := h _ _ _ _ hparts
  refine ⟨_, Part.written (before ++ [.code "export const name = ".toList]),
    Part.written (.code ";\n".toList :: after), hg, ?_, ?_⟩
  · rw [hsource, hparts, Part.written_append]
    rfl
  · exact (hbegins _ _).2.mpr ⟨by decide, by decide, rfl⟩

def brokenWelcome : Template :=
  { SystemTemplate.welcome.starter with name := "Welcome\rback" }

theorem no_literal_brokenWelcome :
    ∃ source before rest, brokenWelcome.generate = .ok source ∧
      source.toList = before ++ ("export const name = ".toList ++
        ("'Welcome\rback'".toList ++ rest)) ∧
      ∀ body rest', ¬ Script.Begins Script.breaks ("'Welcome\rback'".toList ++ rest) body rest' := by
  have hms := SystemTemplate.fragments_starter SystemTemplate.welcome
  obtain ⟨before, after, hparts⟩ := moduleParts_name brokenWelcome _
  refine ⟨_, Part.written before, Part.written (.code ";\n".toList :: after),
    generate_eq_ok.mpr ⟨rfl, _, hms, rfl⟩, ?_, fun body rest' hbegins => ?_⟩
  · rw [toList_moduleText_parts, hparts, Part.written_append]
    rfl
  · have hreturn := (@Script.begins_encode_breaks _ _ "Welcome\rback".toList _).mp hbegins
    exact absurd hreturn.1 (by decide)

end Template

end EmailTemplates
