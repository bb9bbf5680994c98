import PaaRuntime.Lib.Delimited
import PaaRuntime.Lib.Grouping
import PaaRuntime.Provenance

/-!
# The evidence of demotions

`_canonical_demotion_evidence` writes what a demotion is about as compact JSON with sorted keys. The
text is canonical: two demotions generate the same bytes exactly if they are about the same task,
version, scope and instant, by the same operator for the same reason, with the same set of source rows
(`canonicalDemotionEvidence_eq_iff`).
-/

namespace PaaRuntime

/-! ## JSON texts -/

/-- The value of a hex digit. -/
def hexValue (c : Char) : ℕ := if c.isDigit then c.toNat - 48 else c.toNat - 87

/-- One character of a JSON string, read back. -/
def jsonUnescape : List Char → Option (Char × List Char)
  | '\\' :: 'u' :: '0' :: '0' :: a :: b :: r =>
    some (Char.ofNat (16 * hexValue a + hexValue b), r)
  | '\\' :: 'n' :: r => some ('\n', r)
  | '\\' :: 'r' :: r => some ('\r', r)
  | '\\' :: 't' :: r => some ('\t', r)
  | '\\' :: 'b' :: r => some (Char.ofNat 8, r)
  | '\\' :: 'f' :: r => some (Char.ofNat 12, r)
  | '\\' :: c :: r => some (c, r)
  | c :: r => some (c, r)
  | [] => none

theorem hexValue_digitChar : ∀ n < 32,
    16 * hexValue (Nat.digitChar (n / 16)) + hexValue (Nat.digitChar (n % 16)) = n := by
  decide

theorem jsonUnescape_jsonEscape (c : Char) (u : List Char) :
    jsonUnescape (jsonEscape c ++ u) = some (c, u) := by
  unfold jsonEscape
  split_ifs with h₁ h₂ h₃ h₄ h₅ h₆ h₇ h₈
  · rw [h₁]; rfl
  · rw [h₂]; rfl
  · rw [h₃]; rfl
  · rw [h₄]; rfl
  · rw [h₅]; rfl
  · rw [h₆]; rfl
  · rw [h₇]; rfl
  · show some (Char.ofNat _, u) = some (c, u)
    rw [hexValue_digitChar c.toNat h₈, Char.ofNat_toNat]
  · simp only [List.cons_append, List.nil_append]
    unfold jsonUnescape
    split <;> simp_all

theorem delimited_jsonEscape (any : Char → Prop) : Delimited any jsonEscape :=
  .of_decode jsonUnescape_jsonEscape any

theorem jsonEscape_head (c : Char) : ∃ a r, jsonEscape c = a :: r ∧ True ∧ a ≠ '"' := by
  unfold jsonEscape
  split_ifs <;> simp_all

theorem jsonString_toList (s : String) :
    (jsonString s).toList = '"' :: (s.toList.flatMap jsonEscape ++ ['"']) := by
  rw [jsonString, String.toList_ofList]
  rfl

/-- A JSON string can be told from what follows it. -/
theorem delimited_jsonString (any : Char → Prop) : Delimited any fun s => (jsonString s).toList := by
  have hbody : Delimited any fun l : List Char => l.flatMap jsonEscape ++ ['"'] :=
    (delimited_jsonEscape _).flatMap_close trivial jsonEscape_head any
  have hquoted := (hbody.lead ['"']).comap (f := String.toList) fun s t h => String.toList_inj.1 h
  intro a b u v hu hv huv
  simp only [jsonString_toList] at huv
  exact hquoted a b u v hu hv huv

/-- A character that no integer is written with. -/
def NoDigit (c : Char) : Prop := ¬(c.isDigit ∨ c = '-')

/-- An integer, read back. -/
def integerValue : List Char → Int
  | '-' :: r => -(Nat.ofDigitChars 10 r 0 : Int)
  | l => Nat.ofDigitChars 10 l 0

theorem toString_toList (n : ℕ) : (toString (n : Int)).toList = Nat.toDigits 10 n := Nat.toList_repr

theorem toString_negSucc_toList (n : ℕ) :
    (toString (Int.negSucc n)).toList = '-' :: Nat.toDigits 10 (n + 1) := by
  show ("-" ++ Nat.repr (n + 1)).toList = _
  rw [String.toList_append, Nat.toList_repr]
  rfl

theorem isDigit_of_mem {n : ℕ} {c : Char} (hc : c ∈ Nat.toDigits 10 n) : c.isDigit :=
  Nat.isDigit_of_mem_toDigits (by decide) (by decide) hc

theorem integerValue_toString (i : Int) : integerValue (toString i).toList = i := by
  rcases i with n | n
  · show integerValue (toString (n : Int)).toList = n
    rw [toString_toList]
    have hdigits := @Nat.ofDigitChars_ten_toDigits n
    have hminus : '-' ∉ Nat.toDigits 10 n := fun hc => absurd (isDigit_of_mem hc) (by decide)
    unfold integerValue
    split
    · next r hr =>
      rw [hr] at hminus
      exact absurd List.mem_cons_self hminus
    · rw [hdigits]
  · rw [toString_negSucc_toList]
    show -(Nat.ofDigitChars 10 (Nat.toDigits 10 (n + 1)) 0 : Int) = _
    rw [Nat.ofDigitChars_ten_toDigits]
    rfl

/-- An integer can be told from what follows it, if that is no digit. -/
theorem delimited_integer : Delimited NoDigit fun i : Int => (toString i).toList := by
  refine .of_forall (Function.LeftInverse.injective integerValue_toString) fun i c hc hno => hno ?_
  rcases i with n | n
  · have hmem : c ∈ (toString (n : Int)).toList := hc
    rw [toString_toList] at hmem
    exact .inl (isDigit_of_mem hmem)
  · rw [toString_negSucc_toList] at hc
    rcases List.mem_cons.1 hc with rfl | hc
    · exact .inr rfl
    · exact .inl (isDigit_of_mem hc)

/-- A JSON string or `null`. -/
theorem delimited_option (any : Char → Prop) :
    Delimited any fun o : Option String => ((o.map jsonString).getD "null").toList := by
  rintro (_ | a) (_ | b) u v hu hv huv <;> dsimp only at huv
  · exact ⟨rfl, List.append_cancel_left huv⟩
  · rw [Option.map_some, Option.getD_some, jsonString_toList] at huv
    exact absurd (List.cons.inj huv).1 (by decide)
  · rw [Option.map_some, Option.getD_some, jsonString_toList] at huv
    exact absurd (List.cons.inj huv).1 (by decide)
  · obtain ⟨rfl, hrest⟩ := delimited_jsonString any a b u v hu hv huv
    exact ⟨rfl, hrest⟩

/-- An array of JSON strings. -/
theorem delimited_array (any : Char → Prop) : Delimited any fun l : List String =>
    ("[" ++ ",".intercalate (l.map jsonString) ++ "]").toList := by
  have hlist : Delimited any fun l : List String =>
      [','].intercalate (l.map fun s => (jsonString s).toList) ++ [']'] :=
    (delimited_jsonString fun _ => True).intercalate_close trivial trivial (by decide)
      (fun s => ⟨'"', _, jsonString_toList s, by decide⟩) any
  intro a b u v hu hv huv
  simp only [String.toList_append, String.toList_intercalate, List.map_map] at huv
  exact hlist.lead ['['] a b u v hu hv huv

/-! ## The canonical text -/

/-- The fields of the evidence, in the order of their keys. -/
structure EvidenceFields where
  actor : String
  version : Int
  generatedAt : String
  reason : String
  scope : Option String
  rows : List String
  task : String

/-- The key of a member. -/
def jsonMemberKey (key : String) : List Char := (jsonString key).toList ++ ":".toList

/-- The text of the evidence. -/
def EvidenceFields.text (f : EvidenceFields) : List Char :=
  ['\x7b'] ++ jsonMemberKey "actor" ++ (jsonString f.actor).toList ++
    ",".toList ++ jsonMemberKey "declaration_version" ++ (toString f.version).toList ++
    ",".toList ++ jsonMemberKey "generated_at" ++ (jsonString f.generatedAt).toList ++
    ",".toList ++ jsonMemberKey "reason" ++ (jsonString f.reason).toList ++
    ",".toList ++ jsonMemberKey "scope" ++ ((f.scope.map jsonString).getD "null").toList ++
    ",".toList ++ jsonMemberKey "source_rows" ++
      ("[" ++ ",".intercalate (f.rows.map jsonString) ++ "]").toList ++
    ",".toList ++ jsonMemberKey "task" ++ (jsonString f.task).toList ++ ['\x7d']

/-- What the evidence of a demotion is about. -/
def evidenceFields (d : PaaTaskDeclaration) (scope : Option String) (actor reason : String)
    (sourceRows : List String) (generatedAt : String) : EvidenceFields :=
  ⟨actor, d.version, generatedAt, reason, scope, pySorted sourceRows.eraseDups, d.task⟩

theorem canonicalDemotionEvidence_eq (d : PaaTaskDeclaration) (scope : Option String)
    (actor reason : String) (sourceRows : List String) (generatedAt : String) :
    canonicalDemotionEvidence d scope actor reason sourceRows generatedAt =
      (String.ofList (evidenceFields d scope actor reason sourceRows generatedAt).text
        ).toUTF8.data.toList := by
  have hbytes : ∀ s t : String, s.toList = t.toList →
      s.toUTF8.data.toList = t.toUTF8.data.toList := by
    intro s t hst
    rw [String.toList_inj.1 hst]
  unfold canonicalDemotionEvidence
  dsimp only
  apply hbytes
  unfold EvidenceFields.text evidenceFields
  dsimp only
  simp only [List.map_cons, List.map_nil, String.toList_append, String.toList_intercalate,
    List.intercalate_cons_cons, List.intercalate_singleton, String.toList_ofList, List.append_assoc,
    jsonMemberKey]

/-- The text tells its fields. -/
theorem EvidenceFields.text_injective : Function.Injective EvidenceFields.text := by
  rintro ⟨actor, version, generatedAt, reason, scope, rows, task⟩
    ⟨actor', version', generatedAt', reason', scope', rows', task'⟩ h
  have hfree : ∀ u : List Char, StopsAt (fun _ => True) u := fun _ _ _ => trivial
  have hstring : ∀ s t u v, (jsonString s).toList ++ u = (jsonString t).toList ++ v →
      s = t ∧ u = v := fun s t u v => delimited_jsonString _ s t u v (hfree u) (hfree v)
  have hinteger : ∀ (i j : Int) u v, (toString i).toList ++ (",".toList ++ u) =
      (toString j).toList ++ (",".toList ++ v) → i = j ∧ u = v := by
    intro i j u v huv
    have hcomma : ∀ u : List Char, StopsAt NoDigit (",".toList ++ u) := fun u =>
      stopsAt_cons.2 (by unfold NoDigit; decide)
    obtain ⟨hij, hrest⟩ := delimited_integer i j _ _ (hcomma u) (hcomma v) huv
    exact ⟨hij, List.append_cancel_left hrest⟩
  have hoption : ∀ o o' u v, ((Option.map jsonString o).getD "null").toList ++ u =
      ((Option.map jsonString o').getD "null").toList ++ v → o = o' ∧ u = v :=
    fun o o' u v => delimited_option _ o o' u v (hfree u) (hfree v)
  have harray : ∀ (l l' : List String) u v, ("[" ++ ",".intercalate (l.map jsonString) ++ "]").toList ++ u =
      ("[" ++ ",".intercalate (l'.map jsonString) ++ "]").toList ++ v → l = l' ∧ u = v :=
    fun l l' u v => delimited_array _ l l' u v (hfree u) (hfree v)
  unfold EvidenceFields.text at h
  dsimp only at h
  simp only [List.append_assoc, List.append_cancel_left_eq] at h
  obtain ⟨rfl, h⟩ := hstring _ _ _ _ h
  simp only [List.append_cancel_left_eq] at h
  obtain ⟨rfl, h⟩ := hinteger _ _ _ _ h
  simp only [List.append_cancel_left_eq] at h
  obtain ⟨rfl, h⟩ := hstring _ _ _ _ h
  simp only [List.append_cancel_left_eq] at h
  obtain ⟨rfl, h⟩ := hstring _ _ _ _ h
  simp only [List.append_cancel_left_eq] at h
  obtain ⟨rfl, h⟩ := hoption _ _ _ _ h
  simp only [List.append_cancel_left_eq] at h
  obtain ⟨rfl, h⟩ := harray _ _ _ _ h
  simp only [List.append_cancel_left_eq] at h
  obtain ⟨rfl, -⟩ := hstring _ _ _ _ h
  rfl

/-- The bytes of a text tell the text. -/
theorem utf8_injective {s t : String} (h : s.toUTF8.data.toList = t.toUTF8.data.toList) : s = t :=
  String.toByteArray_inj.1 (ByteArray.ext (Array.toList_inj.1 h))

theorem EvidenceFields.bytes_eq_iff {f g : EvidenceFields} :
    (String.ofList f.text).toUTF8.data.toList = (String.ofList g.text).toUTF8.data.toList ↔
      f = g := by
  constructor
  · intro h
    exact text_injective (String.ofList_injective (utf8_injective h))
  · rintro rfl
    rfl

/-- The sorted rows tell the set of them. -/
theorem pySorted_eraseDups_eq_iff {rows rows' : List String} :
    pySorted rows.eraseDups = pySorted rows'.eraseDups ↔ ∀ r, r ∈ rows ↔ r ∈ rows' := by
  have hmem : ∀ l : List String, ∀ r, r ∈ pySorted l.eraseDups ↔ r ∈ l := by
    intro l r
    rw [pySorted, List.mem_insertionSort, List.mem_eraseDups]
  constructor
  · intro h r
    rw [← hmem rows, h, hmem rows']
  · intro h
    have hperm : rows.eraseDups.Perm rows'.eraseDups :=
      (List.perm_ext_iff_of_nodup (Grouping.nodup_eraseDups _) (Grouping.nodup_eraseDups _)).2
        fun r => by rw [List.mem_eraseDups, List.mem_eraseDups, h r]
    have hsorted : (pySorted rows.eraseDups).Perm (pySorted rows'.eraseDups) :=
      ((List.perm_insertionSort _ _).trans hperm).trans (List.perm_insertionSort _ _).symm
    exact hsorted.eq_of_sortedLE (List.sortedLE_insertionSort) (List.sortedLE_insertionSort)

/-- **The evidence is canonical**: two demotions generate the same bytes exactly if they are about
the same task, version, scope and instant, by the same operator, for the same reason, and with the
same set of source rows. -/
theorem canonicalDemotionEvidence_eq_iff {d d' : PaaTaskDeclaration} {scope scope' : Option String}
    {actor actor' reason reason' : String} {rows rows' : List String}
    {generatedAt generatedAt' : String} :
    canonicalDemotionEvidence d scope actor reason rows generatedAt =
        canonicalDemotionEvidence d' scope' actor' reason' rows' generatedAt' ↔
      d.task = d'.task ∧ d.version = d'.version ∧ scope = scope' ∧ generatedAt = generatedAt' ∧
        actor = actor' ∧ reason = reason' ∧ ∀ r, r ∈ rows ↔ r ∈ rows' := by
  rw [canonicalDemotionEvidence_eq, canonicalDemotionEvidence_eq, EvidenceFields.bytes_eq_iff,
    ← pySorted_eraseDups_eq_iff, evidenceFields, evidenceFields, EvidenceFields.mk.injEq]
  constructor
  · rintro ⟨hactor, hversion, hat, hreason, hscope, hrows, htask⟩
    exact ⟨htask, hversion, hscope, hat, hactor, hreason, hrows⟩
  · rintro ⟨htask, hversion, hscope, hat, hactor, hreason, hrows⟩
    exact ⟨hactor, hversion, hat, hreason, hscope, hrows, htask⟩

/-! ## Demotions that share evidence -/

namespace System

open Prog

variable [Hashlib] {config : RuntimeConfig} {W : System} {D : PaaTaskDeclaration → Prop} {i j : ℕ}
  {args : DemoteArgs} {r : Demotion}

/-- The proposal of a demotion is among the rows, with the digest of its evidence. -/
def DemotionRecorded (table : Table) (r : Demotion) : Prop :=
  ∃ p ∈ table, p.motionId = r.motion.motionId ∧ p.event = .motionProposed ∧
    p.evidenceSha256 = (computeSha256 r.data).hex

theorem DemotionRecorded.mono {table more : Table} (h : DemotionRecorded table r) :
    DemotionRecorded (table ++ more) r := by
  obtain ⟨p, hp, hrest⟩ := h
  exact ⟨p, List.mem_append_left more hp, hrest⟩

/-- A step after which a demotion has returned has recorded it. -/
theorem recorded_advance {sh : Shared} {c : Client} {io : Io} {outcome : StepOutcome}
    (hok : c.Ok D i sh) (h : (Client.advance config i io outcome sh c).2 = .demote args (.returned r)) :
    c = .demote args (.returned r) ∨
      DemotionRecorded (Client.advance config i io outcome sh c).1.table r := by
  cases c with
  | demote args' stage =>
    cases stage with
    | running l =>
      right
      simp only [Client.advance, Client.demote.injEq] at h ⊢
      obtain ⟨rfl, h⟩ := h
      cases l with
      | called =>
        simp only [demoteStep] at h
        rcases sh.run_cases i io (demoteLoad config args') fun r =>
          (.running (.loaded r.1 r.2) : Stage DemoteAt Demotion) with
          ⟨a, s, -, hr⟩ | ⟨e, s, -, hr⟩ <;> rw [hr] at h <;> cases h
      | loaded d actor =>
        simp only [demoteStep] at h
        rcases sh.run_cases i io (demoteOpen config args' d actor) fun r =>
          (.running (.storing d actor r.1 ⟨r.2, .mkdir⟩) : Stage DemoteAt Demotion) with
          ⟨a, s, -, hr⟩ | ⟨e, s, -, hr⟩ <;> rw [hr] at h <;> cases h
      | storing d actor f call =>
        obtain ⟨-, hlock, -, -⟩ := hok.knows
        simp only [demoteStep] at h ⊢
        split at h
        · next ref sha left hpc =>
          obtain ⟨-, href⟩ := (hok.call call rfl).finished _ _ hpc
          obtain ⟨-, rfl⟩ := Prod.mk.inj href
          rcases sh.run_cases i io (demoteClose args' d actor f ref call.digest.hex) fun m =>
            (.returned ⟨d, actor, call.data, m⟩ : Stage DemoteAt Demotion) with
            ⟨m, s, hx, hr⟩ | ⟨e, s, -, hr⟩ <;> rw [hr] at h <;> cases h
          obtain ⟨p, a, c, hdem, hw⟩ := demoteClose_ok (Shared.session_working hlock) hx
          obtain ⟨id, createdAt, rfl⟩ := hdem.proposedRow
          simp only [hr]
          refine ⟨demotionRow args' d actor m.motionId f ref call.digest.hex .motionProposed id
            createdAt, ?_, rfl, rfl, rfl⟩
          rw [Shared.after_table, congrArg World.committed hw]
          exact List.mem_append_right _ List.mem_cons_self
        · next e left hpc =>
          rcases sh.run_cases i io (rollbackOnError (throw e : Py Unit)) fun _ =>
            (.raised e : Stage DemoteAt Demotion) with
            ⟨a, s, -, hr⟩ | ⟨e', s, -, hr⟩ <;> rw [hr] at h <;> cases h
        · unfold Shared.store at h
          dsimp only at h
          split at h <;> cases h
    | _ => exact .inl h
  | idle => cases h
  | propose args' stage =>
    left
    cases stage <;> cases h
  | approve args' stage =>
    left
    cases stage <;> cases h
  | reject args' stage =>
    left
    cases stage <;> cases h
  | importEvents events stage =>
    left
    cases stage <;> cases h

/-- Every demotion that has returned is recorded. -/
def Recorded (W : System) : Prop :=
  ∀ i args r, W.thread i = .demote args (.returned r) → DemotionRecorded W.shared.table r

theorem recorded_next (hinv : Inv D W) (h : Recorded W) (a : Action) :
    Recorded (next config W a) := by
  intro i args r hr
  have hkept : W.thread i = .demote args (.returned r) →
      DemotionRecorded (next config W a).shared.table r := by
    intro hi
    rcases next_table hinv a with hsame | ⟨_, _, _, written, -, htable, -⟩
    · rw [hsame]
      exact h i args r hi
    · rw [htable]
      exact (h i args r hi).mono
  cases a with
  | replaceDirectory directory => exact hkept hr
  | start j call =>
    by_cases hji : i = j
    · subst hji
      rw [next, Threads.act_thread_self] at hr
      cases ht : W.thread i with
      | idle =>
        rw [ht] at hr
        cases call <;> cases hr
      | _ =>
        rw [ht] at hr
        exact hkept (ht.trans hr)
    · exact hkept ((next_thread_of_ne hji (.inl ⟨call, rfl⟩)).symm.trans hr)
  | advance j io outcome =>
    by_cases hji : i = j
    · subst hji
      rw [next, Threads.act_thread_self] at hr
      exact (recorded_advance (hinv.own i) hr).elim hkept id
    · exact hkept ((next_thread_of_ne hji (.inr (.inl ⟨io, outcome, rfl⟩))).symm.trans hr)
  | crash j =>
    by_cases hji : i = j
    · subst hji
      rw [next, Threads.act_thread_self] at hr
      refine hkept ?_
      rcases ht : W.thread i with _ | ⟨_, stage⟩ | ⟨_, stage⟩ | ⟨_, stage⟩ | ⟨_, stage⟩ |
        ⟨_, stage⟩ <;> rw [ht] at hr
      case idle => exact hr
      case demote => cases stage <;> first | exact hr | cases hr
      all_goals cases stage <;> cases hr
    · exact hkept ((next_thread_of_ne hji (.inr (.inr rfl))).symm.trans hr)

/-- The rows of a demotion that has returned have the digest of its evidence. -/
theorem demotion_sha (hfollows : Follows W.shared.table)
    (hrecorded : DemotionRecorded W.shared.table r) {e : AutonomyEvent} (he : e ∈ W.shared.table)
    (hm : e.motionId = r.motion.motionId) : e.evidenceSha256 = (computeSha256 r.data).hex := by
  obtain ⟨p, hp, hpm, hpk, hsha⟩ := hrecorded
  obtain ⟨q, hq⟩ := hfollows e he
  have hpq : p = q := hq.eq_of_proposed (mem_motionRows.2 ⟨hp, hpm.trans hm.symm⟩) hpk
  subst hpq
  have hid : e.identity = p.identity := hq.identity (mem_motionRows.2 ⟨he, rfl⟩)
  exact (congrArg Identity.evidenceSha256 hid).trans hsha

/-- **Demotions that share evidence are about the same.** If the rows of two demotions name one
digest, then the demotions were for the same task, version and scope, by the same operator, for the
same reason and with the same set of source rows: also where the digest has collisions. -/
theorem shared_evidence {directory : Directory}
    (h : Run (next config) ServiceOnly (init directory) W) {args' : DemoteArgs} {r' : Demotion}
    (hi : W.thread i = .demote args (.returned r))
    (hj : W.thread j = .demote args' (.returned r')) {e e' : AutonomyEvent}
    (he : e ∈ W.shared.table) (hm : e.motionId = r.motion.motionId)
    (he' : e' ∈ W.shared.table) (hm' : e'.motionId = r'.motion.motionId)
    (hsha : e.evidenceSha256 = e'.evidenceSha256) :
    args.task = args'.task ∧ r.declaration.version = r'.declaration.version ∧
      args.scope = args'.scope ∧ r.actor = r'.actor ∧ args.reason = args'.reason ∧
      ∀ row, row ∈ args.sourceRows ↔ row ∈ args'.sourceRows := by
  have hinv := inv_reach h
  have hfollows : Follows W.shared.table :=
    (written_run (inv_init fun _ _ _ _ => trivial) (written_init directory) h).follows
  have hrecorded : Recorded W :=
    (h.invariant (P := fun W => Inv (fun _ => True) W ∧ Recorded W)
      (fun V a _ hV => ⟨inv_next hV.1 (loadsOnly_true V a), recorded_next hV.1 hV.2 a⟩)
      ⟨inv_init fun _ _ _ _ => trivial, fun _ _ _ hr => nomatch hr⟩).2
  have hknows := (hinv.own i).knows
  have hknows' := (hinv.own j).knows
  rw [hi] at hknows
  rw [hj] at hknows'
  obtain ⟨hloaded, hpub, generatedAt, hdata⟩ := hknows
  obtain ⟨hloaded', hpub', generatedAt', hdata'⟩ := hknows'
  -- the store keeps one content for a digest
  have hdigest : computeSha256 r.data = computeSha256 r'.data := by
    have hhex : (computeSha256 r.data).hex = (computeSha256 r'.data).hex := by
      rw [← demotion_sha hfollows (hrecorded i args r hi) he hm, hsha,
        demotion_sha hfollows (hrecorded j args' r' hj) he' hm']
    generalize computeSha256 r.data = a at hhex
    generalize computeSha256 r'.data = b at hhex
    cases a
    cases b
    cases hhex
    rfl
  rw [hdigest, hpub', Option.some.injEq, hdata, hdata', canonicalDemotionEvidence_eq_iff] at hpub
  obtain ⟨htask, hversion, hscope, -, hactor, hreason, hrows⟩ := hpub
  rw [hloaded.task, hloaded'.task] at htask
  exact ⟨htask.symm, hversion.symm, hscope.symm, hactor.symm, hreason.symm,
    fun row => (hrows row).symm⟩

end System

/-! ## Two demotions with one evidence -/

/-- The source rows and the motion of a demotion that has returned. -/
def Client.demoted? : Client → Option (List String × String)
  | .demote args (.returned r) => some (args.sourceRows, r.motion.motionId)
  | _ => none

theorem Client.demoted_eq_some {c : Client} {rows : List String} {m : String}
    (h : c.demoted? = some (rows, m)) :
    ∃ args r, c = .demote args (.returned r) ∧ args.sourceRows = rows ∧ r.motion.motionId = m := by
  unfold demoted? at h
  split at h
  · next args r =>
    cases h
    exact ⟨args, r, rfl, rfl, rfl⟩
  · cases h

namespace Scenario

def firstIncident : DemoteArgs := ⟨"t", none, "incident", none, ["b", "a", "b"]⟩

def secondIncident : DemoteArgs := ⟨"t", none, "incident", none, ["a", "b"]⟩

/-- A demotion opens its block at `at_`, and runs on from `n`. -/
def demotesAt (i : ℕ) (args : DemoteArgs) (at_ n : ℕ) : List Action :=
  .start i (.demote args) :: .advance i (io n) (.completes "tmp") ::
    .advance i (io at_) (.completes "tmp") ::
    (List.range 7).map fun k => .advance i (io (n + k + 1)) (.completes "tmp")

/-- A task is promoted and demoted twice, the second time with a clock that stands where it stood at
the first. -/
def twice : List Action :=
  calls 0 (.propose ⟨"t", none, "hotl", "file", none, none⟩) 0 11 ++
    (calls 1 (.approve ⟨text 9 0, "fine", none⟩) 11 2 ++
      (demotesAt 2 firstIncident 14 15 ++
        (calls 3 (.propose ⟨"t", none, "hotl", "file", none, none⟩) 25 11 ++
          (calls 4 (.approve ⟨text 31 0, "fine", none⟩) 36 2 ++
            demotesAt 5 secondIncident 14 40))))

theorem mem_demotesAt {i at_ n : ℕ} {args : DemoteArgs} {a : Action}
    (ha : a ∈ demotesAt i args at_ n) :
    a = .start i (.demote args) ∨ ∃ k, a = .advance i (io k) (.completes "tmp") := by
  rcases List.mem_cons.1 ha with rfl | ha
  · exact .inl rfl
  · right
    rcases List.mem_cons.1 ha with rfl | ha
    · exact ⟨_, rfl⟩
    rcases List.mem_cons.1 ha with rfl | ha
    · exact ⟨_, rfl⟩
    obtain ⟨k, -, rfl⟩ := List.mem_map.1 ha
    exact ⟨_, rfl⟩

theorem serviceOnly_twice : ∀ a ∈ twice, ∀ W, System.ServiceOnly W a := by
  intro a ha W
  have hcalls : ∀ {i n parts : ℕ} {call : Call}, (∀ events, call ≠ .importEvents events) →
      a ∈ calls i call n parts → System.ServiceOnly W a := by
    intro i n parts call hcall ha
    rcases mem_calls ha with rfl | ⟨k, rfl⟩
    · cases call <;> first | trivial | exact absurd rfl (hcall _)
    · trivial
  have hdemotes : ∀ {i at_ n : ℕ} {args : DemoteArgs}, a ∈ demotesAt i args at_ n →
      System.ServiceOnly W a := by
    intro i at_ n args ha
    rcases mem_demotesAt ha with rfl | ⟨k, rfl⟩ <;> trivial
  simp only [twice, List.mem_append] at ha
  rcases ha with ha | ha | ha | ha | ha | ha
  · exact hcalls (by exact nofun) ha
  · exact hcalls (by exact nofun) ha
  · exact hdemotes ha
  · exact hcalls (by exact nofun) ha
  · exact hcalls (by exact nofun) ha
  · exact hdemotes ha

end Scenario

open Scenario in
theorem System.shared_evidence_twice :
    firstIncident.sourceRows ⊆ secondIncident.sourceRows ∧
      secondIncident.sourceRows ⊆ firstIncident.sourceRows := by
  have hfirst : ((after twice).thread 2).demoted? = some (firstIncident.sourceRows, text 22 0) := by
    decide +kernel
  have hsecond : ((after twice).thread 5).demoted? =
      some (secondIncident.sourceRows, text 44 0) := by
    decide +kernel
  obtain ⟨args, r, hr, hrows, hm⟩ := Client.demoted_eq_some hfirst
  obtain ⟨args', r', hr', hrows', hm'⟩ := Client.demoted_eq_some hsecond
  obtain ⟨e, he, e', he', hem, hem', hsha⟩ : ∃ e ∈ (after twice).shared.table,
      ∃ e' ∈ (after twice).shared.table, e.motionId = text 22 0 ∧ e'.motionId = text 44 0 ∧
        e.evidenceSha256 = e'.evidenceSha256 := by
    decide +kernel
  have hsame := (@System.shared_evidence hashing config _ _ _ _ _ _ (Run.foldl _ _ serviceOnly_twice)
    _ _ hr hr' _ _ he (hem.trans hm.symm) he' (hem'.trans hm'.symm) hsha).2.2.2.2.2
  rw [hrows, hrows'] at hsame
  exact ⟨fun row => (hsame row).1, fun row => (hsame row).2⟩

end PaaRuntime
