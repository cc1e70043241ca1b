/-
Documents are read again from their printed statements, but for one word.

# What a document makes

Reading a document is reading each line and then adding up what the lines say
(`Reader.addLines_eq_ok`, `Ontology.foldl_addLine`). A line of rigid names
labels one entity at least, and no label is ever taken away. So an ontology
without rigid entities is made of statements, each of them read from a line of
its own and nothing else (`Reader.eq_of_rigid_eq_nil`,
`Reader.exists_chars_of_mem`).

# What a printed line says

A printed statement is tidy, and it does not start with `#`, which starts no
token. So a printed line is read as its statement, unless it looks like a line
of rigid names, which the reader looks for before anything else. That happens
to an inclusion that leads with a class `rigid`: it is written `rigid ⊑ B`,
whatever blanks or parentheses there were in the document.

# Conclusion

`Reader.ontology_document_iff`: the printed statements of a document without
rigid entities are read as the same ontology if and only if no inclusion among
them leads with that class. Where one does, the document is not read or labels
something rigid. `Reader.ontology_document_rigidClass` is the smallest such
document.
-/
import ContextDL.Proofs.Iri.Checking
import ContextDL.Proofs.Surface.Leading
import ContextDL.Proofs.Surface.Faithfulness
import ContextDL.Proofs.Surface.Tidiness

namespace ContextDL

open Reader

variable {reader : Reader}

-- ======================================================================= lines

/-- The statements on a line, none or one. -/
def Line.statements : Line → List Statement
  | .statement content => [content]
  | _ => []

/-- The entities that a line labels rigid. -/
def Line.entities : Line → List Iri
  | .rigid entities => entities
  | _ => []

/-- The unnamed ontology that some lines add up to. -/
def Ontology.ofLines (contents : List Line) : Ontology where
  iri := none
  statements := contents.flatMap Line.statements
  notes := EntityNotes.empty.markAll (contents.flatMap Line.entities)

/-- Statements add up to their ontology. -/
theorem Ontology.ofLines_statement (statements : List Statement) :
    ofLines (statements.map .statement) = { empty none with statements } := by
  have unlabelled :
      (statements.map Line.statement).flatMap Line.entities = [] := by
    simp [Line.entities]
  have listed :
      (statements.map Line.statement).flatMap Line.statements = statements := by
    simp [List.flatMap_map, Line.statements]
  unfold ofLines
  rw [unlabelled, listed]
  rfl

namespace Ontology

/-- A run over lines adds their statements and labels their entities. -/
theorem foldl_addLine (contents : List Line) (o : Ontology) :
    contents.foldl addLine o =
      { o with
        statements := o.statements ++ contents.flatMap Line.statements
        notes := o.notes.markAll (contents.flatMap Line.entities) } := by
  induction contents generalizing o with
  | nil => simp [EntityNotes.markAll]
  | cons content contents ih =>
    rw [List.foldl_cons, ih]
    cases content with
    | skipped => rfl
    | rigid entities =>
      simp [addLine, foldl_markRigid, EntityNotes.markAll, Line.statements,
        Line.entities]
    | statement s => simp [addLine, add, extend, Line.statements, Line.entities]

end Ontology

namespace Reader

/-- Lines are added if each of them is read. -/
theorem addLines_eq_ok {o result : Ontology} {lines : List (List Char)} :
    reader.addLines o lines = .ok result ↔
      ∃ contents, lines.mapM reader.line = .ok contents ∧
        contents.foldl Ontology.addLine o = result := by
  unfold addLines
  induction lines generalizing o with
  | nil => simp
  | cons text lines ih =>
    rw [List.foldlM_cons, List.mapM_cons, bind_eq_ok]
    simp only [bind_eq_ok, pure_eq_ok, ih]
    constructor
    · intro h
      obtain ⟨_, ⟨content, first, rfl⟩, contents, others, rfl⟩ := h
      exact ⟨_, ⟨content, first, contents, others, rfl⟩, rfl⟩
    · intro h
      obtain ⟨_, ⟨content, first, contents, others, rfl⟩, rfl⟩ := h
      exact ⟨_, ⟨content, first, rfl⟩, contents, others, rfl⟩

/-- A document is what its lines say, added up. -/
theorem ontology_eq_ok {text : String} {o : Ontology} :
    reader.ontology text = .ok o ↔
      ∃ contents, (Text.lines text.toList).mapM reader.line = .ok contents ∧
        o = .ofLines contents := by
  unfold ontology
  rw [addLines_eq_ok]
  refine exists_congr fun contents => and_congr_right fun _ => ?_
  rw [Ontology.foldl_addLine, eq_comm]
  exact Iff.rfl

/-- A line of rigid names has one at least. -/
theorem entities_ne_nil {text : List Char} {entities : List Iri}
    (h : reader.line text = .ok (.rigid entities)) : entities ≠ [] := by
  unfold line at h
  dsimp only at h
  split at h
  · cases h
  split at h
  · next names _ =>
    obtain ⟨_, run, hend⟩ := bind_eq_ok.1 h
    cases hend
    rintro rfl
    exact List.splitOn_ne_nil _ _ (mapM_eq_ok_nil.1 run)
  · obtain ⟨_, _, hend⟩ := bind_eq_ok.1 h
    cases hend

/-- A statement on a line is read from the line, trimmed. -/
theorem statementOfChars_of_line {text : List Char} {s : Statement}
    (h : reader.line text = .ok (.statement s)) :
    reader.statementOfChars (Text.trim text) = .ok s := by
  unfold line at h
  dsimp only at h
  split at h
  · cases h
  split at h
  · obtain ⟨_, _, hend⟩ := bind_eq_ok.1 h
    cases hend
  · obtain ⟨_, run, hend⟩ := bind_eq_ok.1 h
    cases hend
    exact run

-- =================================================================== documents

/-- Every statement of a document is read from some line. -/
theorem exists_chars_of_mem {text : String} {o : Ontology}
    (h : reader.ontology text = .ok o) {s : Statement}
    (hs : s ∈ o.statements) : ∃ cs, reader.statementOfChars cs = .ok s := by
  obtain ⟨contents, run, rfl⟩ := ontology_eq_ok.1 h
  obtain ⟨content, hcontent, hs⟩ := List.mem_flatMap.1 hs
  obtain ⟨line, -, read⟩ := (exists_of_mapM_eq_ok run).2 content hcontent
  cases content with
  | statement s' =>
    cases List.mem_singleton.1 hs
    exact ⟨_, statementOfChars_of_line read⟩
  | skipped => cases hs
  | rigid => cases hs

/-- What some line labels is rigid in the document. -/
theorem mem_rigid_of_line {text : String} {o : Ontology}
    (h : reader.ontology text = .ok o) {line : List Char}
    (hline : line ∈ Text.lines text.toList) {entities : List Iri}
    (read : reader.line line = .ok (.rigid entities)) {e : Iri}
    (he : e ∈ entities) : e ∈ o.rigid := by
  obtain ⟨contents, run, rfl⟩ := ontology_eq_ok.1 h
  obtain ⟨content, hcontent, same⟩ := (exists_of_mapM_eq_ok run).1 line hline
  rw [read, Except.ok.injEq] at same
  subst same
  exact EntityNotes.mem_rigid.2 (EntityNotes.isRigid_markAll.2
    (.inr (List.mem_flatMap.2 ⟨_, hcontent, he⟩)))

/-- A document without rigid entities has no name and no notes. -/
theorem eq_of_rigid_eq_nil {text : String} {o : Ontology}
    (h : reader.ontology text = .ok o) (flexible : o.rigid = []) :
    o = { Ontology.empty none with statements := o.statements } := by
  obtain ⟨contents, -, rfl⟩ := ontology_eq_ok.1 h
  have unlabelled : contents.flatMap Line.entities = [] := by
    rw [List.eq_nil_iff_forall_not_mem]
    intro e he
    have rigid : e ∈ (Ontology.ofLines contents).rigid :=
      EntityNotes.mem_rigid.2 (EntityNotes.isRigid_markAll.2 (.inr he))
    rw [flexible] at rigid
    cases rigid
  unfold Ontology.ofLines
  rw [unlabelled]
  rfl

end Reader

-- =============================================================== printed lines

/-- The printed statements of an ontology, a line each. -/
def Ontology.document (o : Ontology) : String :=
  String.ofList (['\n'].intercalate (o.statements.map Statement.chars))

namespace Reader

/-- No text that starts with a comment mark is cut into tokens. -/
theorem head?_ne_hash {cs : List Char} {ts : List Token}
    (h : Token.ofText cs = .ok ts) : cs.head? ≠ some '#' := by
  intro hash
  obtain ⟨rest, rfl⟩ := List.head?_eq_some_iff.1 hash
  have named : Lexeme.isNameChar '#' = true := by decide +kernel
  have failed : ∃ e, Lexeme.read '#' rest = .error e := by
    unfold Lexeme.read
    rw [show Lexeme.ofMark? '#' = none from rfl]
    dsimp only
    rw [if_neg (by decide), if_pos named, if_neg (by simp)]
    exact ⟨_, rfl⟩
  obtain ⟨e, failed⟩ := failed
  have lexemes := Lexeme.ofText_eq_ok.2 ⟨ts, h, rfl⟩
  rw [Lexeme.ofText_eq, List.dropWhile_cons_of_neg (by decide)] at lexemes
  dsimp only at lexemes
  rw [failed] at lexemes
  cases lexemes

/-- A statement that is read is printed on a line, from which it is read. -/
theorem isTidy_of_statementOfChars (space : Iri.IsSpace reader.base.toList)
    (valid : reader.NamesValid) {cs : List Char} {s : Statement}
    (h : reader.statementOfChars cs = .ok s) :
    IsTidy s.chars ∧ reader.statementOfChars s.chars = .ok s := by
  obtain ⟨readable, bound⟩ := isReadable_of_statementOfChars h
  have again := statement_text_of_isReadable space valid readable bound
  rw [statement, Statement.text, String.toList_ofList] at again
  exact ⟨readable.isTidy space, again⟩

/-- A printed statement is read as a line that is neither empty nor a
comment: as rigid names if it looks so, and else as the statement. -/
theorem line_chars (space : Iri.IsSpace reader.base.toList)
    (valid : reader.NamesValid) {cs : List Char} {s : Statement}
    (h : reader.statementOfChars cs = .ok s) :
    reader.line s.chars =
      match rigidNames? s.chars with
      | some names => do
        return .rigid (← (names.splitOn ',').mapM reader.rigidName)
      | none => .ok (.statement s) := by
  obtain ⟨tidy, again⟩ := isTidy_of_statementOfChars space valid h
  obtain ⟨ts, lexed, -⟩ := isStatement_of_statementOfChars again
  obtain ⟨c, rest, start, -⟩ := tidy.starts
  have read : ¬(s.chars.isEmpty || s.chars.head? = some '#') = true := by
    have noComment := head?_ne_hash lexed
    rw [start] at noComment ⊢
    simpa using noComment
  unfold line
  rw [tidy.trim_eq]
  dsimp only
  rw [if_neg read]
  cases rigidNames? s.chars with
  | some names => rfl
  | none =>
    dsimp only
    rw [again]
    rfl

/-- The line of a printed statement that does not look like one of rigid names
says the statement. -/
theorem line_of_not_looksRigid (space : Iri.IsSpace reader.base.toList)
    (valid : reader.NamesValid) {cs : List Char} {s : Statement}
    (h : reader.statementOfChars cs = .ok s) (plain : ¬LooksRigid s.chars) :
    reader.line s.chars = .ok (.statement s) := by
  have other : rigidNames? s.chars = none := by
    rw [← Option.not_isSome_iff_eq_none, isSome_rigidNames?]
    exact plain
  rw [line_chars space valid h, other]

/-- The line of a printed statement that looks like one of rigid names labels
something, if it is read. -/
theorem exists_entity_of_looksRigid (space : Iri.IsSpace reader.base.toList)
    (valid : reader.NamesValid) {cs : List Char} {s : Statement}
    (h : reader.statementOfChars cs = .ok s) (looks : LooksRigid s.chars)
    {content : Line} (read : reader.line s.chars = .ok content) :
    ∃ e entities, content = .rigid (e :: entities) := by
  obtain ⟨names, isRigid⟩ := Option.isSome_iff_exists.1
    (isSome_rigidNames?.2 looks)
  have rigid := read
  rw [line_chars space valid h, isRigid] at rigid
  obtain ⟨entities, _, rfl⟩ := map_eq_ok.1 rigid
  obtain ⟨e, entities, rfl⟩ :=
    List.exists_cons_of_ne_nil (entities_ne_nil read)
  exact ⟨e, entities, rfl⟩

/-- The lines of the printed statements are these, if there are any. -/
theorem lines_document {o : Ontology}
    (oneLine : ∀ s ∈ o.statements, '\n' ∉ s.chars)
    (nonempty : o.statements ≠ []) :
    Text.lines o.document.toList = o.statements.map Statement.chars := by
  unfold Text.lines Ontology.document
  rw [String.toList_ofList]
  refine List.splitOn_intercalate '\n' ?_ (by simpa using nonempty)
  intro line hline
  obtain ⟨s, hs, rfl⟩ := List.mem_map.1 hline
  exact oneLine s hs

-- =========================================================== printed documents

/-- The printed statements of a document are on one line each. -/
theorem not_mem_chars_of_mem (space : Iri.IsSpace reader.base.toList)
    (valid : reader.NamesValid) {text : String} {o : Ontology}
    (h : reader.ontology text = .ok o) :
    ∀ s ∈ o.statements, '\n' ∉ s.chars := by
  intro s hs
  obtain ⟨cs, read⟩ := exists_chars_of_mem h hs
  exact (isTidy_of_statementOfChars space valid read).1.oneLine

/-- If no printed statement looks like rigid names, they are read again. -/
theorem ontology_document (space : Iri.IsSpace reader.base.toList)
    (valid : reader.NamesValid) {text : String} {o : Ontology}
    (h : reader.ontology text = .ok o) (flexible : o.rigid = [])
    (plain : ∀ s ∈ o.statements, ¬LooksRigid s.chars) :
    reader.ontology o.document = .ok o := by
  have same := eq_of_rigid_eq_nil h flexible
  by_cases empty : o.statements = []
  · -- one empty line is left
    refine ontology_eq_ok.2 ⟨[.skipped], ?_, ?_⟩
    · unfold Ontology.document
      rw [empty]
      rfl
    · rw [same, empty]
      rfl
  · have step : ∀ s ∈ o.statements, ∀ content,
        reader.line s.chars = .ok content ↔
          True ∧ Line.statement s = content := by
      intro s hs content
      obtain ⟨cs, read⟩ := exists_chars_of_mem h hs
      rw [line_of_not_looksRigid space valid read (plain s hs)]
      simp
    have oneLine := not_mem_chars_of_mem space valid h
    refine ontology_eq_ok.2 ⟨o.statements.map Line.statement, ?_, ?_⟩
    · rw [lines_document oneLine empty, List.mapM_map]
      exact (mapM_eq_ok step).2 ⟨fun _ _ => trivial, rfl⟩
    · exact same.trans (Ontology.ofLines_statement _).symm

/-- If the printed statements are read again, none looks like rigid names: it
would label an entity. -/
theorem not_looksRigid_of_ontology_document
    (space : Iri.IsSpace reader.base.toList) (valid : reader.NamesValid)
    {text : String} {o : Ontology} (h : reader.ontology text = .ok o)
    (flexible : o.rigid = []) (again : reader.ontology o.document = .ok o)
    {s : Statement} (hs : s ∈ o.statements) : ¬LooksRigid s.chars := by
  intro looks
  obtain ⟨cs, read⟩ := exists_chars_of_mem h hs
  have printed : s.chars ∈ Text.lines o.document.toList := by
    rw [lines_document (not_mem_chars_of_mem space valid h)
      (List.ne_nil_of_mem hs)]
    exact List.mem_map_of_mem hs
  obtain ⟨contents, run, -⟩ := ontology_eq_ok.1 again
  obtain ⟨content, -, line⟩ := (exists_of_mapM_eq_ok run).1 _ printed
  obtain ⟨e, entities, rfl⟩ :=
    exists_entity_of_looksRigid space valid read looks line
  have rigid := mem_rigid_of_line again printed line List.mem_cons_self
  rw [flexible] at rigid
  cases rigid

/-- The printed statements of a document without rigid entities are read as
the same ontology if and only if no inclusion among them leads with the class
that is named by the word `rigid`. -/
theorem ontology_document_iff (space : Iri.IsSpace reader.base.toList)
    (valid : reader.NamesValid) {text : String} {o : Ontology}
    (h : reader.ontology text = .ok o) (flexible : o.rigid = []) :
    reader.ontology o.document = .ok o ↔
      ∀ s ∈ o.statements,
        s.body.leadingName? ≠ some (reader.named rigidWord) := by
  have leads : ∀ s ∈ o.statements, (¬LooksRigid s.chars ↔
      s.body.leadingName? ≠ some (reader.named rigidWord)) := by
    intro s hs
    obtain ⟨cs, read⟩ := exists_chars_of_mem h hs
    obtain ⟨ts, lexed, tokens⟩ := isStatement_of_statementOfChars read
    exact not_congr (tokens.looksRigid_iff space fun _ =>
      Token.isProper_of_ofText lexed)
  constructor
  · intro again s hs
    exact (leads s hs).1
      (not_looksRigid_of_ontology_document space valid h flexible again hs)
  · intro plain
    exact ontology_document space valid h flexible fun s hs =>
      (leads s hs).2 (plain s hs)

/-- A document with a comment, an empty line, and a tagged inclusion and an
assertion that are printed with other blanks and parentheses. -/
theorem ontology_document_standard :
    Iri.IsSpace standard.base.toList ∧ standard.NamesValid ∧
    ∃ o, standard.ontology
        "# roles\n ((r)^-1)( a,b )\n\n¬(rigid)⊑B@N" = .ok o ∧
      o.rigid = [] ∧
      (∀ s ∈ o.statements,
        s.body.leadingName? ≠ some (standard.named rigidWord)) ∧
      o.document = "(r^-1)(a,b)\n¬rigid ⊑ B @ N" ∧
      standard.ontology o.document = .ok o := by
  let o : Ontology :=
    { Ontology.empty none with
      statements :=
        [.plain (.roleAssertion (.inverse (standard.named ['r']))
            (.named (standard.named ['a'])) (.named (standard.named ['b']))),
          ⟨.subClassOf (.compl (.atom (standard.named rigidWord)))
              (.atom (standard.named ['B'])),
            [.definedBy (standard.named ['N'])]⟩] }
  have first : standard.ontology
      "# roles\n ((r)^-1)( a,b )\n\n¬(rigid)⊑B@N" = .ok o := by
    decide +kernel
  have flexible : o.rigid = [] := by decide +kernel
  have plain : ∀ s ∈ o.statements,
      s.body.leadingName? ≠ some (standard.named rigidWord) := by
    decide +kernel
  exact ⟨isSpace_standard, namesValid_standard, o, first, flexible, plain,
    by decide +kernel,
    (ontology_document_iff isSpace_standard namesValid_standard first
      flexible).2 plain⟩

/-- An inclusion of the class `rigid` that is read as such, and is printed as a
line of rigid names with a bad name on it. -/
theorem ontology_document_rigidClass :
    Iri.IsSpace standard.base.toList ∧ standard.NamesValid ∧
    ∃ o, standard.ontology "rigid⊑B" = .ok o ∧ o.rigid = [] ∧
      o.document = "rigid ⊑ B" ∧
      standard.ontology o.document = .error ⟨.badName, "⊑ B".toList⟩ ∧
      standard.ontology o.document ≠ .ok o := by
  let o : Ontology :=
    { Ontology.empty none with
      statements :=
        [.plain (.subClassOf (.atom (standard.named rigidWord))
          (.atom (standard.named ['B'])))] }
  have first : standard.ontology "rigid⊑B" = .ok o := by decide +kernel
  have failed : standard.ontology o.document =
      .error ⟨.badName, "⊑ B".toList⟩ := by
    decide +kernel
  refine ⟨isSpace_standard, namesValid_standard, o, first, by decide +kernel,
    by decide +kernel, failed, ?_⟩
  rw [failed]
  exact nofun

end Reader

end ContextDL
