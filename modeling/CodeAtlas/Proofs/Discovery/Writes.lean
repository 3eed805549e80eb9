import CodeAtlas.Discovery.Pass
import CodeAtlas.Proofs.Ingestion.Writes

/-! Discovery as a list of writes: the patterns are found first, so the graph that they are found in fixes
everything that is written. -/

namespace CodeAtlas

open Ingestion (id_of_writeNode nodesKeyed_of_run nodesKeyed_of_runAll)

variable {now : String} {g : Graph}

namespace Pattern

/-- The concept that stands for a pattern. -/
def draft (p : Pattern) : NodeDraft where
  kind := .concept
  name := some (.text p.name)
  properties := .ofFields [
    ("description", .text p.description),
    ("confidence", .float p.confidence),
    ("instances", .int p.related.length),
    ("category", .text p.category)]

def writes (p : Pattern) : List Write :=
  .node (conceptId (.text p.name)) p.draft ::
    p.related.map fun r =>
      .link r (conceptId (.text p.name)) .implements (.ofFields [("confidence", .float p.confidence)])

theorem implement_effect {concept related : Scalar} {confidence : Value} :
    (implement now concept confidence related).effect g =
      ((Write.link related concept .implements (.ofFields [("confidence", confidence)])).run now).run
        g := by
  rw [Change.effect, implement, run_tryCatch, Write.run, run_tryCatch, EStateM.run_bind]
  cases (Graph.relate now related concept .implements
      (.ofFields [("confidence", confidence)])).run g with
  | ok e g' => rfl
  | error e g' => cases e <;> rfl

theorem implementAll_effect {concept : Scalar} {confidence : Value} {related : List Scalar} :
    ((related.map Value.scalar).forM
      (fun v => do implement now concept confidence (← Change.check v.key) : Value → Change Unit)).effect
        g =
      (Write.runAll now (related.map fun r =>
        .link r concept .implements (.ofFields [("confidence", confidence)]))).run g := by
  induction related generalizing g with
  | nil => rfl
  | cons r rest ih =>
    rw [List.map_cons, List.map_cons]
    change ((implement now concept confidence r) >>= fun _ =>
      (rest.map Value.scalar).forM _).effect g = _
    exact Write.effect_cons implement_effect fun _ _ _ _ => ih

theorem materialize_effect {p : Pattern} (h : g.NodesKeyed) :
    (p.materialize now).effect g = (Write.runAll now p.writes).run g := by
  rw [materialize, materializeOpen, writes, Write.runAll_cons, Write.run_node, Change.effect_bind,
    Change.effect]
  have hdraft : ({
      kind := .concept
      name := some (.text p.name)
      properties := .ofFields [
        ("description", .text p.description),
        ("confidence", .float p.confidence),
        ("instances", .int (p.related.map Value.scalar).length),
        ("category", .text p.category)] } : NodeDraft) = p.draft := by
    rw [draft, List.length_map]
  rw [hdraft]
  cases hn : (Graph.writeNode now (conceptId (.text p.name)) p.draft).run g with
  | error e g' => rfl
  | ok n g' =>
    have hid : n.id = conceptId (.text p.name) := id_of_writeNode h hn
    simp only [hid]
    rw [Change.effect_bind, ← implementAll_effect, Change.effect]
    cases ((p.related.map Value.scalar).forM _ : Change Unit).run g' <;> rfl

end Pattern

namespace Discovery

def writes (threshold : Value) (g : Graph) : List Write :=
  match detect threshold g with
  | .ok found => found.all.flatMap Pattern.writes
  | .error e => [.stop e]

theorem materializeAll_effect {ps : List Pattern} (h : g.NodesKeyed) :
    (ps.forM fun p => do let _ ← p.materialize now : Change Unit).effect g =
      (Write.runAll now (ps.flatMap Pattern.writes)).run g := by
  induction ps generalizing g with
  | nil => rfl
  | cons p rest ih =>
    have hfirst : (p.materialize now >>= fun _ => pure () : Change Unit).effect g =
        (Write.runAll now p.writes).run g := by
      rw [← Pattern.materialize_effect h, Change.effect_bind, Change.effect]
      cases (p.materialize now).run g <;> rfl
    rw [List.flatMap_cons]
    exact Write.effect_append hfirst fun _ g' _ hp => ih (nodesKeyed_of_runAll h hp)

theorem discover_effect {threshold : Value} (h : g.NodesKeyed) :
    (discover now threshold).effect g = (Write.runAll now (writes threshold g)).run g := by
  rw [discover, writes]
  simp only [Change.effect_bind, EStateM.run_get]
  cases detect threshold g with
  | error e => rfl
  | ok found =>
    simp only [Change.run_check_ok]
    rw [← materializeAll_effect h, Change.effect]
    cases (found.all.forM _ : Change Unit).run g <;> rfl

end Discovery

end CodeAtlas
