import Marshal.Proofs.Code.Unit
import Marshal.Proofs.Conversion.Texts

/-!
# Generated code as text

What is known of laid-out code, read off its text. Main statements: the lines of code are indented
by the nesting of its braces (`indented_by_nesting`), and a generated file is a header, which is all
that the options decide, followed by the methods, each of them laid out on its own and then moved to
its place (`generate_eq_header_append_methods`).
-/

namespace Marshal

open Text Code

/-! ## Nesting -/

/-- The lines of the text lead from a nesting back to it. -/
def Text.NestedAt (nesting : Nat) (text : String) : Prop :=
  Nested nesting (linesOf text) nesting

theorem nestedAt_stmtLines {body : List Stmt} (h : Every (Stmt.IsPlain layoutChars) body)
    (depth : Nat) : NestedAt depth (textOf (stmtLines depth body)) := by
  have hwhole : Every (Stmt.Avoids ['\n']) body :=
    (every_isPlain_iff.1 h).1.imp fun stmt => Stmt.Avoids.mono (by decide) stmt
  exact (nests_stmtLines depth body h).nested (whole_stmtLines depth body hwhole)

theorem nestedAt_method {m : Method} (h : m.IsPlain layoutChars) (depth : Nat) :
    NestedAt depth (textOf (m.lines depth)) := by
  have hwhole : Whole (m.lines depth) :=
    Method.whole_lines (fun text htext => (h.free text htext).mono (by decide)) depth
  exact (Method.nests_lines h depth).nested hwhole

/-- Lines of code are indented by the nesting of the braces before them, which is never negative.
Units start and end without nesting, and bodies and methods at the depth that they are laid out for.
This holds if there are no line feeds and no braces in their texts, and hence of the code for
schemas and options without them. -/
theorem indented_by_nesting :
    (∀ u : CompilationUnit, u.IsPlain layoutChars →
      NestedAt 0 u.render ∧ u.render.toList.getLast? = some closing) ∧
    (∀ (body : List Stmt) (depth : Nat), Every (Stmt.IsPlain layoutChars) body →
      NestedAt depth (textOf (stmtLines depth body))) ∧
    (∀ (m : Method) (depth : Nat), m.IsPlain layoutChars →
      NestedAt depth (textOf (m.lines depth))) ∧
    ∀ (s : Schema) (direction : Direction) (options : Options) (code : String),
      (∀ text ∈ s.texts, Free layoutChars text) → (∀ text ∈ options.texts, Free layoutChars text) →
      s.generate direction options = .ok code →
      NestedAt 0 code ∧ code.toList.getLast? = some closing := by
  refine ⟨fun u h => h.nested_render, fun body depth h => nestedAt_stmtLines h depth,
    fun m depth h => nestedAt_method h depth, ?_⟩
  intro s direction options code hschema hoptions hcode
  rw [Schema.generate_eq_map] at hcode
  obtain ⟨methods, hmethods, rfl⟩ := Outcome.map_eq_ok_iff.1 hcode
  exact (plain_unitOf (List.Subset.refl _) hschema hoptions hmethods).nested_render

/-- Arrays and a nullable field, which are read in loops and by two branches of a conditional. -/
def nestedBlocks : Schema where
  types := [⟨"Car", true, [⟨"rows", .array false (.array false (.composite false "Car"))⟩,
    ⟨"paint", .enum true "Color"⟩]⟩]

theorem indented_of_nestedBlocks :
    (∀ text ∈ nestedBlocks.texts, Free layoutChars text) ∧
    ∃ methods code, nestedBlocks.methods .fromJson = .ok methods ∧
      nestedBlocks.generate .fromJson {} = .ok code ∧ (unitOf .fromJson {} methods).render = code ∧
      NestedAt 0 code ∧ code.toList.getLast? = some closing ∧
      ∀ m ∈ methods,
        NestedAt 2 (textOf (m.lines 2)) ∧ NestedAt 3 (textOf (stmtLines 3 m.body)) := by
  have hschema : ∀ text ∈ nestedBlocks.texts, Free layoutChars text := by decide +kernel
  have hoptions : ∀ text ∈ ({} : Options).texts, Free layoutChars text := by decide +kernel
  obtain ⟨methods, hmethods⟩ : ∃ methods, nestedBlocks.methods .fromJson = .ok methods :=
    Outcome.exists_eq_ok (by decide +kernel)
  have hplain := Schema.plain_methods (List.Subset.refl _) hschema hmethods
  have hcode : nestedBlocks.generate .fromJson {} = .ok (unitOf .fromJson {} methods).render := by
    rw [Schema.generate_eq_map, hmethods, Except.map]
  obtain ⟨hunit, hbody, hmethod, hgenerate⟩ := indented_by_nesting
  obtain ⟨hnested, -⟩ := hunit _ (plain_unitOf (List.Subset.refl _) hschema hoptions hmethods)
  obtain ⟨-, hlast⟩ := hgenerate _ _ _ _ hschema hoptions hcode
  refine ⟨hschema, methods, _, hmethods, hcode, rfl, hnested, hlast, fun m hm => ⟨?_, ?_⟩⟩
  · exact hmethod m 2 (hplain m hm)
  · exact hbody m.body 3 (Method.isPlain_iff.1 (hplain m hm)).2

/-! ## Header and methods -/

/-- The usings, and the lines that start the namespace and the class. -/
def headerText (direction : Direction) (options : Options) : String :=
  String.join (options.allUsings.map fun name => "using " ++ name ++ ";\n") ++ "\n"
    ++ "namespace " ++ options.namespaceName ++ " \x7b\n"
    ++ "    " ++ Conversion.modifiers ++ " class " ++ options.classNameFor direction ++ " \x7b\n"

/-- Methods of a class, each with an empty line after it, and the two braces that end the unit. -/
def memberText (methods : List Method) : String :=
  String.join (methods.map fun m => indent 2 m.text ++ "\n") ++ "    \x7d\n" ++ "\x7d"

theorem textOf_openUnit (direction : Direction) (options : Options) (methods : List Method) :
    textOf (CompilationUnit.openUnit 0 (unitOf direction options methods)).lines =
      headerText direction options := by
  have husings : (unitOf direction options methods).usingLines =
      (options.allUsings.map fun name => Line.code 0 ("using " ++ name ++ ";")) ++ [.blank] := by
    simp [CompilationUnit.usingLines, unitOf, Options.allUsings, Options.baseUsings]
  rw [CompilationUnit.openUnit, husings]
  apply String.toList_inj.1
  simp [unitOf, openBlock, headerText, textOf, Line.text, indentation, Function.comp_def,
    String.append_assoc]

theorem textOf_methodLines {u : CompilationUnit}
    (h : ∀ m ∈ u.methods, ∀ text ∈ m.texts, Free ['\n'] text) :
    textOf u.methodLines = String.join (u.methods.map fun m => indent 2 m.text ++ "\n") := by
  have hblank : textOf [.blank] = "\n" := by simp [textOf, Line.text]
  rw [CompilationUnit.methodLines, textOf_flatMap]
  refine congrArg String.join (List.map_congr_left fun m hm => ?_)
  rw [textOf_append, Method.textOf_lines (h m hm), hblank]

/-- Only the header of a unit depends on the options. -/
theorem render_unitOf (direction : Direction) (options : Options) (methods : List Method) :
    (unitOf direction options methods).render = headerText direction options
      ++ (textOf (unitOf direction {} methods).methodLines ++ "    \x7d\n" ++ "\x7d") := by
  have hclose : textOf [.code 1 "\x7d"] = "    \x7d\n" := by
    simp [textOf, Line.text, indentation]
  rw [CompilationUnit.render_eq, CompilationUnit.wholeLines, textOf_append, textOf_append,
    textOf_openUnit, hclose]
  simp only [String.append_assoc]
  rfl

/-- To lay code without line feeds out at a greater depth is to indent its lines. The code for a
schema whose names have no line feeds is therefore the header, followed by the text of each method,
indented by two levels and with an empty line after it, and by the two last braces. For any schema,
the options have no part in whether there is code, in the error if there is none, and in what
follows the header. -/
theorem generate_eq_header_append_methods :
    (∀ (body : List Stmt) (depth levels : Nat), Every (Stmt.Avoids ['\n']) body →
      textOf (stmtLines (depth + levels) body) = indent levels (textOf (stmtLines depth body))) ∧
    (∀ (m : Method) (depth levels : Nat), (∀ text ∈ m.texts, Free ['\n'] text) →
      textOf (m.lines (depth + levels)) = indent levels (textOf (m.lines depth))) ∧
    (∀ (s : Schema) (direction : Direction) (options : Options) (methods : List Method),
      (∀ text ∈ s.texts, Free ['\n'] text) → s.methods direction = .ok methods →
      s.generate direction options = .ok (headerText direction options ++ memberText methods)) ∧
    ∀ (s : Schema) (direction : Direction),
      (∃ e, ∀ options, s.generate direction options = .error e) ∨
        ∃ rest, ∀ options,
          s.generate direction options = .ok (headerText direction options ++ rest) := by
  refine ⟨fun body depth levels h => textOf_stmtLines_add h depth levels,
    fun m depth levels h => Method.textOf_lines_add h depth levels, ?_, ?_⟩
  · intro s direction options methods hschema hmethods
    have hplain := Schema.plain_methods (by decide) hschema hmethods
    rw [Schema.generate_eq_map, hmethods, Except.map, render_unitOf,
      textOf_methodLines fun m hm => (hplain m hm).free]
    rfl
  · intro s direction
    cases hmethods : s.methods direction with
    | error e => exact .inl ⟨e, fun options => by rw [Schema.generate_eq_map, hmethods]; rfl⟩
    | ok methods =>
      refine .inr ⟨textOf (unitOf direction {} methods).methodLines ++ "    \x7d\n" ++ "\x7d",
        fun options => ?_⟩
      rw [Schema.generate_eq_map, hmethods, Except.map, render_unitOf]

theorem generate_of_nestedBlocks :
    (∀ text ∈ nestedBlocks.texts, Free ['\n'] text) ∧
    ∃ methods, nestedBlocks.methods .toJson = .ok methods ∧
      nestedBlocks.generate .toJson {} = .ok (headerText .toJson {} ++ memberText methods) ∧
      (∀ m ∈ methods, textOf (m.lines (1 + 2)) = indent 2 (textOf (m.lines 1))) ∧
      textOf (stmtLines (1 + 2) [.conditional [] none]) =
        indent 2 (textOf (stmtLines 1 [.conditional [] none])) := by
  have hschema : ∀ text ∈ nestedBlocks.texts, Free ['\n'] text := by decide +kernel
  obtain ⟨methods, hmethods⟩ : ∃ methods, nestedBlocks.methods .toJson = .ok methods :=
    Outcome.exists_eq_ok (by decide +kernel)
  have hplain := Schema.plain_methods (by decide) hschema hmethods
  obtain ⟨hbody, hmethod, hgenerate, -⟩ := generate_eq_header_append_methods
  refine ⟨hschema, methods, hmethods, hgenerate _ _ _ _ hschema hmethods,
    fun m hm => hmethod m 1 2 (hplain m hm).free, hbody _ 1 2 ?_⟩
  simp [Stmt.Avoids]

end Marshal
