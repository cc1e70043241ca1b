/-
Documents that follow each other.

A document is read line by line into an ontology, and two ontologies are
merged notes and all. These two ways to add something up are written apart
from each other, and they agree: a text with another one on the lines below it
is read as the merge of what the two texts are read as
(`Reader.ontology_append`). The statements stand in the same order then, and
so do the entities with notes and the notes of each.

# The two sums

What a line says is told by the line alone, so the lines of a document can be
read before anything is added up (`Reader.addLines_eq_mapM`). Adding up what
some lines say, to whatever there is, is merging what they add up to by
themselves (`Ontology.foldl_addLine_eq_merge`); for the labels on both sides
this is the lemma on books of notes, `EntityNotes.merge_markAll`.

The first line that cannot be read ends the work. It is the first one of the
front text, if that has any, and its error does not depend on what was read
before it.
-/
import ContextDL.Proofs.Ontology.Merging
import ContextDL.Proofs.Surface.DocumentRoundTrip

namespace ContextDL

-- ======================================================================= lines

/-- The lines of a text with another one below it. A line feed at the end of
the front text leaves a blank line between them. -/
theorem Text.lines_append (front back : List Char) :
    lines (front ++ '\n' :: back) = lines front ++ lines back :=
  List.splitOn_append_cons_self front back

/-- To add up what some lines say is to merge the ontology that they make. -/
theorem Ontology.foldl_addLine_eq_merge (contents : List Line) (o : Ontology) :
    contents.foldl addLine o = o.merge (.ofLines contents) := by
  rw [foldl_addLine, merge, ofLines, EntityNotes.merge_markAll]

namespace Reader

variable (reader : Reader)

/-- All lines are read before anything is added up, and with the same error if
one is not read. -/
theorem addLines_eq_mapM (o : Ontology) (lines : List (List Char)) :
    reader.addLines o lines = do
      let contents ← lines.mapM reader.line
      return contents.foldl Ontology.addLine o := by
  unfold addLines
  induction lines generalizing o with
  | nil => rfl
  | cons text lines ih =>
    rw [List.foldlM_cons, List.mapM_cons]
    cases reader.line text with
    | error e => rfl
    | ok content =>
      show List.foldlM _ (o.addLine content) lines = _
      rw [ih]
      cases lines.mapM reader.line <;> rfl

/-- Lines that are added to an ontology are merged into it. -/
theorem addLines_eq_merge (o : Ontology) (lines : List (List Char)) :
    reader.addLines o lines = do
      let added ← reader.addLines (.empty none) lines
      return o.merge added := by
  rw [addLines_eq_mapM, addLines_eq_mapM]
  cases lines.mapM reader.line with
  | error e => rfl
  | ok contents =>
    show Except.ok (contents.foldl Ontology.addLine o) =
      .ok (o.merge (contents.foldl Ontology.addLine (.empty none)))
    have alone : contents.foldl Ontology.addLine (.empty none) =
        .ofLines contents :=
      Ontology.foldl_addLine contents (.empty none)
    rw [alone, Ontology.foldl_addLine_eq_merge]

-- =================================================================== documents

/-- Reading takes texts below each other to the merge of their ontologies. If
one of the texts is not read, neither are both: the error is the one of the
front text, or that of the back text if the front is read. -/
theorem ontology_append (front back : String) :
    reader.ontology (front ++ "\n" ++ back) = do
      let first ← reader.ontology front
      let second ← reader.ontology back
      return first.merge second := by
  have lines : Text.lines (front ++ "\n" ++ back).toList =
      Text.lines front.toList ++ Text.lines back.toList := by
    rw [← Text.lines_append]
    simp
  unfold ontology
  rw [lines, addLines, List.foldlM_append]
  show (reader.addLines (.empty none) (Text.lines front.toList) >>=
    fun first => reader.addLines first (Text.lines back.toList)) = _
  refine congrArg _ (funext fun first => ?_)
  exact reader.addLines_eq_merge first _

end Reader

end ContextDL
