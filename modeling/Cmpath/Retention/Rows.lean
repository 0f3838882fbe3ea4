import Cmpath.Retention.Apply

/-!
# The rows a plan hash covers

Every text column of a journal row the engine wrote is valid UTF-8, so `json.Marshal` loses nothing
of it: the row reads back from its line (`Plain`), and no two rows share a line.
-/

namespace Cmpath
open Lib Lib.Txn

theorem Instant.valid_fraction (n : Nat) : (Instant.fraction n).valid = true := by
  unfold Instant.fraction
  split
  · rfl
  · rw [Text.valid_cons]
    refine Text.valid_of_subset (t := Text.padded 9 n) (fun r member => ?_) (Text.valid_padded 9 n)
    have kept := List.mem_reverse.mp member
    exact List.mem_reverse.mp ((List.dropWhile_sublist _).subset kept)

theorem Instant.valid_text (t : Instant) : t.text.valid = true := by
  have sign : Text.valid (if t.year < 0 then [.char '-'] else []) = true := by
    split <;> rfl
  have mark (c : Char) : (Rune.char c).isScalar = true := rfl
  simp only [Instant.text, Text.valid_append, Text.valid_cons, sign, mark, Text.valid_padded,
    Instant.valid_fraction, Text.valid_nil, Bool.and_self]

/-! ## Rows -/

/-- The texts of a row are valid. -/
def Row.Sound (row : Row) : Prop := ∀ f ∈ row, f.1.valid = true ∧ ∀ t, f.2 = .text t → t.valid = true

theorem Row.Sound.plain : ∀ {row : Row}, row.Sound → Json.Plain row.json
  | [], _ => trivial
  | (key, value) :: rest, sound => by
      obtain ⟨name, text⟩ := sound _ List.mem_cons_self
      refine ⟨Text.blur_of_valid name, ?_, Row.Sound.plain fun f member => sound f (List.mem_cons_of_mem _ member)⟩
      cases value with
      | null => trivial
      | integer n => trivial
      | text t => exact Text.blur_of_valid (text t rfl)

theorem Value.json_injective : Function.Injective Value.json := by
  intro a b same
  cases a <;> cases b <;> simp only [Value.json, Json.int.injEq, Json.str.injEq, reduceCtorEq] at same
  · rfl
  · rw [same]
  · rw [same]

theorem Row.json_injective : Function.Injective Row.json := by
  intro a b same
  have fields := Json.obj.inj same
  refine List.map_injective_iff.mpr (fun f g eq => ?_) fields
  obtain ⟨key, value⟩ := Prod.mk.inj eq
  exact Prod.ext key (Value.json_injective value)

section Columns

variable {rest : Row} {key : String}

theorem Row.Sound.text {t : Text} (h : t.valid = true) (later : rest.Sound) :
    Row.Sound ((Text.lit key, .text t) :: rest) := by
  intro f member
  rcases List.mem_cons.mp member with rfl | member
  · refine ⟨Text.valid_lit key, fun s same => ?_⟩
    cases same
    exact h
  · exact later f member

theorem Row.Sound.integer {n : Int} (later : rest.Sound) :
    Row.Sound ((Text.lit key, .integer n) :: rest) := by
  intro f member
  rcases List.mem_cons.mp member with rfl | member
  · exact ⟨Text.valid_lit key, nofun⟩
  · exact later f member

theorem Row.Sound.option {α : Type} {f : α → Value} {o : Option α}
    (h : ∀ a t, o = some a → f a = .text t → t.valid = true) (later : rest.Sound) :
    Row.Sound ((Text.lit key, .ofOption f o) :: rest) := by
  intro c member
  rcases List.mem_cons.mp member with rfl | member
  · refine ⟨Text.valid_lit key, fun t same => ?_⟩
    cases o with
    | none => cases same
    | some a => exact h a t rfl same
  · exact later c member

theorem Row.Sound.nil : Row.Sound [] := fun _ member => nomatch member

end Columns

/-! ## Texts of the journal -/

/-- The texts of a turn that neither `json.Marshal` nor a clock writes. -/
def TurnRow.Texts (t : TurnRow) : Prop :=
  t.requestId.valid = true ∧ t.fingerprint.valid = true ∧
    ∀ hash, t.commitHash = some hash → hash.valid = true

def ToolRow.Texts (c : ToolRow) : Prop :=
  c.requestId.valid = true ∧ c.callId.valid = true ∧ c.name.valid = true ∧
    c.fingerprint.valid = true

def ModelCallRow.Texts (m : ModelCallRow) : Prop :=
  m.requestId.valid = true ∧ m.callId.valid = true ∧ m.payloadJson.valid = true ∧
    m.counting.valid = true

def ModelResponseRow.Texts (r : ModelResponseRow) : Prop :=
  r.requestId.valid = true ∧ r.callId.valid = true ∧ r.responseJson.valid = true

def LeaseRow.Texts (l : LeaseRow) : Prop :=
  l.token.valid = true ∧ l.requestId.valid = true ∧ l.callId.valid = true ∧ l.argsHash.valid = true

def RetiredRow.Texts (r : RetiredRow) : Prop :=
  r.requestId.valid = true ∧ r.fingerprint.valid = true

theorem TurnRow.Texts.sound {t : TurnRow} (h : t.Texts) : t.row.Sound := by
  obtain ⟨id, fingerprint, hash⟩ := h
  refine .option (fun a s set same => ?_) (.text t.createdAt.valid_text (.text fingerprint
    (.integer (.text (Json.valid_marshal _) (.option (fun a s _ same => ?_) (.text id
    (.text (Json.valid_marshal _) (.text ?_ (.integer (.integer (.text t.updatedAt.valid_text
    .nil)))))))))))
  · cases same
    exact hash a set
  · cases same
    exact Json.valid_marshal a
  · cases t.status <;> exact Text.valid_lit _

theorem ToolRow.Texts.sound {c : ToolRow} (h : c.Texts) : c.row.Sound := by
  obtain ⟨id, call, name, fingerprint⟩ := h
  refine .text (Json.valid_marshal _) (.text call (.option nofun (.text fingerprint (.text name
    (.text id (.option (fun a s _ same => ?_) (.text ?_ .nil)))))))
  · cases same
    exact Json.valid_marshal a
  · cases c.status <;> exact Text.valid_lit _

theorem ModelCallRow.Texts.sound {m : ModelCallRow} (h : m.Texts) : m.row.Sound := by
  obtain ⟨id, call, payload, counting⟩ := h
  exact .text call (.text counting (.text payload (.text id (.integer .nil))))

theorem ModelResponseRow.Texts.sound {r : ModelResponseRow} (h : r.Texts) : r.row.Sound := by
  obtain ⟨id, call, response⟩ := h
  exact .text call (.text r.createdAt.valid_text (.text id (.text response .nil)))

theorem RetiredRow.Texts.sound {r : RetiredRow} (h : r.Texts) : r.row.Sound := by
  obtain ⟨id, fingerprint⟩ := h
  refine .text fingerprint (.text id (.text r.retiredAt.valid_text (.text ?_ .nil)))
  cases r.status <;> exact Text.valid_lit _

theorem LeaseRow.Texts.sound {l : LeaseRow} (h : l.Texts) : l.row.Sound := by
  obtain ⟨token, id, call, hash⟩ := h
  exact .text hash (.text call (.text l.createdAt.valid_text (.integer (.integer (.text id
    (.text token .nil))))))

theorem BasisRow.sound {b : BasisRow} (id : b.requestId.valid = true) : b.row.Sound :=
  .integer (.text id (.integer .nil))

theorem ProvenanceRow.sound {p : ProvenanceRow} (id : p.requestId.valid = true) :
    p.row.Sound := by
  refine .text p.createdAt.valid_text (.integer (.text ?_ (.text id .nil)))
  cases p.kind <;> exact Text.valid_lit _

/-- The texts of the journal are valid. -/
structure JournalTexts (j : Journal) : Prop where
  turns : ∀ t ∈ j.turns, t.Texts
  tools : ∀ c ∈ j.toolCalls, c.Texts
  calls : ∀ m ∈ j.modelCalls, m.Texts
  responses : ∀ r ∈ j.modelResponses, r.Texts
  leases : ∀ l ∈ j.actionLeases, l.Texts
  retired : ∀ r ∈ j.retiredTurns, r.Texts

theorem JournalTexts.empty : JournalTexts {} := by
  constructor <;> exact fun _ member => nomatch member

section Step

variable {host : Host} {kind : Kind} {db db' : Db}

theorem Change.texts (c : Change host kind db db') (keys : JournalKeys db.toJournal)
    (h : JournalTexts db.toJournal) : JournalTexts db'.toJournal := by
  cases c with
  | additive evolves =>
    rw [evolves.journal]
    exact h
  | begun clk r c row payload basis input custom normal begun =>
    rw [begun.journal]
    refine { h with turns := fun t member => ?_ }
    rcases List.mem_append.mp member with member | member
    · exact h.turns t member
    · rw [List.mem_singleton.mp member]
      exact ⟨textOK_valid (normalizeRequest_ok normal).id, valid_fingerprint host _, nofun⟩
  | recovered now id t row live pending task revision =>
    refine { h with turns := fun u member => ?_ }
    obtain ⟨s, source, rfl⟩ := Table.mem_update.mp member
    split <;> exact h.turns s source
  | aborted now id t live pending =>
    refine { h with turns := fun u member => ?_ }
    obtain ⟨s, source, rfl⟩ := Table.mem_update.mp member
    split <;> exact h.turns s source
  | committed clk id generation reply t row facts snapshot edges done =>
    rw [done.journal]
    refine { h with turns := fun u member => ?_ }
    obtain ⟨s, source, rfl⟩ := Table.mem_update.mp member
    split
    · obtain ⟨id, fingerprint, _⟩ := h.turns s source
      refine ⟨id, fingerprint, fun hash set => ?_⟩
      cases set
      exact valid_fingerprint host _
    · exact h.turns s source
  | toolStarted id callId name args t texts live pending unknown fresh =>
    refine { h with tools := fun c member => ?_ }
    rcases List.mem_append.mp member with member | member
    · exact h.tools c member
    · rw [List.mem_singleton.mp member]
      have own := (h.turns t (turn?_mem live)).1
      rw [turn?_id live] at own
      exact ⟨own, textOK_valid texts.1.1, textOK_valid texts.2, valid_fingerprint host _⟩
  | toolFinished clk id callId raw t call live pending known started finished =>
    obtain ⟨_, _, journal⟩ := finished.journal
    rw [journal]
    refine { h with tools := fun c member => ?_ }
    obtain ⟨s, source, rfl⟩ := Table.mem_update.mp member
    split <;> exact h.tools s source
  | leased lease t text live pending token hash =>
    refine { h with leases := fun l member => ?_ }
    rcases List.mem_append.mp member with member | member
    · exact h.leases l member
    · rw [List.mem_singleton.mp member]
      have own := (h.turns t (turn?_mem live)).1
      rw [turn?_id live] at own
      obtain ⟨⟨_, token⟩, _⟩ := token
      obtain ⟨_, hash⟩ := hash
      exact ⟨by rw [token]; exact valid_fingerprint host _, own, textOK_valid text,
        by rw [hash]; exact valid_fingerprint host _⟩
  | requested new t texts live pending budget unknown fresh =>
    refine { h with calls := fun m member => ?_ }
    rcases List.mem_append.mp member with member | member
    · exact h.calls m member
    · rw [List.mem_singleton.mp member]
      have own := (h.turns t (turn?_mem live)).1
      rw [turn?_id live] at own
      exact ⟨own, textOK_valid texts.1, texts.2.2, textOK_valid texts.2.1⟩
  | responded new t texts live pending request unknown =>
    refine { h with responses := fun r member => ?_ }
    rcases List.mem_append.mp member with member | member
    · exact h.responses r member
    · rw [List.mem_singleton.mp member]
      have own := (h.turns t (turn?_mem live)).1
      rw [turn?_id live] at own
      exact ⟨own, textOK_valid texts.1, texts.2⟩
  | retired retiredAt cutoff =>
    rw [retireAll_journal keys retiredAt cutoff]
    refine
      { turns := fun t member => h.turns t (Table.mem_delete.mp member).1
        tools := fun c member => h.tools c (Table.mem_delete.mp member).1
        calls := fun m member => h.calls m (Table.mem_delete.mp member).1
        responses := fun r member => h.responses r (Table.mem_delete.mp member).1
        leases := fun l member => h.leases l (Table.mem_delete.mp member).1
        retired := fun r member => ?_ }
    rcases List.mem_append.mp member with member | member
    · exact h.retired r member
    · obtain ⟨_, _, t, found, rfl⟩ := mem_tombstones member
      obtain ⟨id, fingerprint, _⟩ := h.turns t (turn?_mem found)
      exact ⟨id, fingerprint⟩

end Step

/-- The texts are valid in every database any run leads to. -/
theorem Reachable.texts {host : Host} {db : Db} (h : Reachable host db) :
    JournalTexts db.toJournal := by
  have both : JournalKeys db.toJournal ∧ JournalTexts db.toJournal := by
    refine h.inv (P := fun db => JournalKeys db.toJournal ∧ JournalTexts db.toJournal)
      ⟨JournalKeys.empty, JournalTexts.empty⟩ fun db step ⟨keys, texts⟩ => ⟨step.keys keys, ?_⟩
    rcases step.change host db with change | evolves
    · exact change.texts keys texts
    · rw [evolves.journal]
      exact texts
  exact both.2

/-- Every row of a turn in a corpus table is sound. -/
theorem rows_sound {db : Db} (keys : JournalKeys db.toJournal) (h : JournalTexts db.toJournal)
    (table : JournalTable) (id : Text) : ∀ row ∈ table.rows db id, row.Sound := by
  have child {α : Type} {key : α → Text} {row : α → Row} {rows : List α}
      (sound : ∀ c ∈ rows, (row c).Sound) :
      ∀ r ∈ (rows.filter (key · == id)).map row, r.Sound := by
    intro r member
    obtain ⟨c, source, rfl⟩ := List.mem_map.mp member
    exact sound c (List.mem_filter.mp source).1
  cases table with
  | turns => exact child fun t member => (h.turns t member).sound
  | toolCalls => exact child fun c member => (h.tools c member).sound
  | modelCalls => exact child fun m member => (h.calls m member).sound
  | modelResponses => exact child fun r member => (h.responses r member).sound
  | turnBasis =>
    refine child fun b member => BasisRow.sound ?_
    obtain ⟨t, live, same⟩ := keys.basisTurn b member
    rw [← same]
    exact (h.turns t live).1
  | turnProvenance =>
    refine child fun p member => ProvenanceRow.sound ?_
    obtain ⟨t, live, same⟩ := keys.provenanceTurn p member
    rw [← same]
    exact (h.turns t live).1
  | actionLeases => exact child fun l member => (h.leases l member).sound

end Cmpath
