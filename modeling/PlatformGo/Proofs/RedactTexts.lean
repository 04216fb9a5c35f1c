import PlatformGo.Proofs.RedactValues

/-!
# Redacted texts

What `JSON` and `ContainsSensitiveJSON` do with a text. Redaction itself is as
good as it can be: the text it returns spells the redacted value, and what
stood under a sensitive name leaves no trace in it (`json_redacts`).

What is accepted is another matter. The decoder reads one value off the front
of the text, and nobody asks what follows. And it decodes into maps, where of
two members with one name the last one is kept; names inside the value that is
dropped are never seen. So the two functions accept exactly the documents, and
detection has looked at everything, if and only if nothing follows the first
value and no sensitive name is lost that would have been the only one
(`accepts_documents_iff`).
-/

namespace PlatformGo.Redact

open PlatformGo.Json

variable {u : Unicode} {data : Bytes}

/-! ## Redaction -/

/-- What an accepted text becomes. -/
theorem json_eq_ok {syntaxError : Bytes → String} {out : Bytes}
    (h : json u syntaxError data = .ok out) :
    Utf8.trimSpace data = [] ∧ out = [] ∨
      ∃ v, decode data = some v ∧ out = encode (redactValue u v).1 := by
  unfold json at h
  split at h
  · next hblank =>
      cases h
      exact .inl ⟨hblank, rfl⟩
  · split at h
    · cases h
    · next v hv =>
        cases h
        exact .inr ⟨v, hv, rfl⟩

/-- Texts that differ at most under sensitive names have one output, and what
is returned decodes to the redacted value. -/
theorem json_redacts (u : Unicode) (syntaxError : Bytes → String) :
    (∀ data data' v v', decode data = some v → decode data' = some v' →
      Alike u v v' → ∃ out, json u syntaxError data = .ok out ∧
        json u syntaxError data' = .ok out) ∧
      ∀ data out, json u syntaxError data = .ok out →
        Utf8.trimSpace data = [] ∧ out = [] ∨
          ∃ v w, decode data = some v ∧ decode out = some w ∧
            Redacts u v w := by
  constructor
  · intro data data' v v' hv hv' halike
    have heq := halike.redactValue_eq (wellFormed_decode hv).distinct
      (wellFormed_decode hv').distinct
    refine ⟨_, json_of_decode hv syntaxError, ?_⟩
    rw [json_of_decode hv' syntaxError, heq]
  · intro data out hout
    rcases json_eq_ok hout with hblank | ⟨v, hv, rfl⟩
    · exact .inl hblank
    · have hwell := wellFormed_redactValue (u := u) (wellFormed_decode hv)
      exact .inr ⟨v, _, hv, hwell.decode_encode, redacts_redactValue v⟩

theorem json_redacts_passwords :
    Alike ascii
        (.array [.object [(bytes "password", .object [])], .scalar .null])
        (.array [.object [(bytes "password", .scalar .null)], .scalar .null]) ∧
      json ascii (fun _ => "") (bytes "[\x7b\"password\":\x7b\x7d\x7d,null]") =
        .ok (bytes "[\x7b\"password\":\"[REDACTED]\"\x7d,null]") ∧
      json ascii (fun _ => "") (bytes "[\x7b\"password\":null\x7d,null] 1") =
        .ok (bytes "[\x7b\"password\":\"[REDACTED]\"\x7d,null]") := by
  have halike : Alike ascii
      (.array [.object [(bytes "password", .object [])], .scalar .null])
      (.array [.object [(bytes "password", .scalar .null)], .scalar .null]) :=
    alike_of_redactValue_eq (by decide +kernel)
  have hjson : json ascii (fun _ => "")
      (bytes "[\x7b\"password\":\x7b\x7d\x7d,null]") =
        .ok (bytes "[\x7b\"password\":\"[REDACTED]\"\x7d,null]") := by
    decide +kernel
  obtain ⟨out, hout, hout'⟩ := (json_redacts ascii fun _ => "").1
    (bytes "[\x7b\"password\":\x7b\x7d\x7d,null]")
    (bytes "[\x7b\"password\":null\x7d,null] 1") _ _ (by decide +kernel)
    (by decide +kernel) halike
  rw [hout] at hjson
  exact ⟨halike, hout.trans hjson, hout'.trans hjson⟩

/-! ## Acceptance -/

theorem decode_of_first {v : Value} {rest : Bytes} (h : First v data rest) :
    decode data = some v.decoded :=
  decode_eq_some_iff.mpr ⟨v, rest, h, rfl⟩

theorem decode_of_document {v : Value} (h : Document v data) :
    decode data = some v.decoded := by
  obtain ⟨rest, hfirst, -⟩ := document_iff.mp h
  exact decode_of_first hfirst

/-- A sensitive name of the tree is in the decoded value or is lost. -/
theorem sensitive_iff {v : Value} :
    Sensitive u v ↔
      Sensitive u v.decoded ∨ ∃ name ∈ v.lost, sensitiveKey u name = true := by
  constructor
  · rintro ⟨name, hname, hs⟩
    rcases Value.mem_names_iff.mp hname with hname | hname
    · exact .inl ⟨name, hname, hs⟩
    · exact .inr ⟨name, hname, hs⟩
  · rintro (⟨name, hname, hs⟩ | ⟨name, hname, hs⟩)
    · exact ⟨name, Value.mem_names_iff.mpr (.inl hname), hs⟩
    · exact ⟨name, Value.mem_names_iff.mpr (.inr hname), hs⟩

/-- Exactly the documents are accepted, and where detection answers no, no
value in the text has a sensitive name. -/
structure Strict (u : Unicode) (syntaxError : Bytes → String) (data : Bytes) :
    Prop where
  redacts : (∃ out, json u syntaxError data = .ok out) ↔ ∃ v, Document v data
  detects : (∃ found, containsSensitiveJSON u syntaxError data = .ok found) ↔
    ∃ v, Document v data
  inspected : containsSensitiveJSON u syntaxError data = .ok false →
    ∀ vs, Stream vs data → ∀ v ∈ vs, ¬ Sensitive u v

theorem json_ok_iff (hblank : Utf8.trimSpace data ≠ [])
    (syntaxError : Bytes → String) :
    (∃ out, json u syntaxError data = .ok out) ↔
      ∃ v rest, First v data rest := by
  constructor
  · rintro ⟨out, hout⟩
    rcases json_eq_ok hout with ⟨hnil, -⟩ | ⟨v, hv, -⟩
    · exact absurd hnil hblank
    · obtain ⟨w, rest, hfirst, -⟩ := decode_eq_some_iff.mp hv
      exact ⟨w, rest, hfirst⟩
  · rintro ⟨v, rest, hfirst⟩
    exact ⟨_, json_of_decode (decode_of_first hfirst) syntaxError⟩

theorem containsSensitiveJSON_ok_iff (hblank : Utf8.trimSpace data ≠ [])
    (syntaxError : Bytes → String) :
    (∃ found, containsSensitiveJSON u syntaxError data = .ok found) ↔
      ∃ v rest, First v data rest := by
  constructor
  · rintro ⟨found, hfound⟩
    rw [containsSensitiveJSON, if_neg hblank] at hfound
    split at hfound
    · cases hfound
    · next v hv =>
        obtain ⟨w, rest, hfirst, -⟩ := decode_eq_some_iff.mp hv
        exact ⟨w, rest, hfirst⟩
  · rintro ⟨v, rest, hfirst⟩
    exact ⟨_, containsSensitiveJSON_of_decode (decode_of_first hfirst) syntaxError⟩

/-- Detection answers no on a text whose decoded value has no sensitive
name. -/
theorem containsSensitiveJSON_eq_false {v : Value} {rest : Bytes}
    (h : First v data rest) (syntaxError : Bytes → String) :
    containsSensitiveJSON u syntaxError data = .ok false ↔
      ¬ Sensitive u v.decoded := by
  rw [containsSensitiveJSON_of_decode (decode_of_first h),
    ← containsSensitiveValue_iff, Bool.not_eq_true]
  exact ⟨Except.ok.inj, congrArg Except.ok⟩

theorem accepts_documents_iff (u : Unicode) (syntaxError : Bytes → String)
    (hblank : Utf8.trimSpace data ≠ []) :
    Strict u syntaxError data ↔
      ∀ v rest, First v data rest → Blank rest ∧
        (Sensitive u v.decoded ∨
          ∀ name ∈ v.lost, sensitiveKey u name = false) := by
  constructor
  · intro h v rest hfirst
    obtain ⟨w, hdoc⟩ := h.redacts.mp
      ((json_ok_iff hblank syntaxError).mpr ⟨v, rest, hfirst⟩)
    obtain ⟨rest', hfirst', hrest⟩ := document_iff.mp hdoc
    obtain ⟨rfl, rfl⟩ := hfirst.unique hfirst'
    refine ⟨hrest, ?_⟩
    by_cases hs : Sensitive u v.decoded
    · exact .inl hs
    · have hno := (containsSensitiveJSON_eq_false hfirst syntaxError).mpr hs
      have hclean := h.inspected hno [v] (.cons hfirst (.nil hrest)) v
        (List.mem_singleton_self v)
      exact .inr fun name hname => Bool.eq_false_iff.mpr fun hs' =>
        hclean (sensitive_iff.mpr (.inr ⟨name, hname, hs'⟩))
  · intro h
    have hdoc : (∃ v rest, First v data rest) ↔ ∃ v, Document v data :=
      exists_congr fun v => by
        rw [document_iff]
        exact exists_congr fun rest =>
          ⟨fun hfirst => ⟨hfirst, (h v rest hfirst).1⟩, And.left⟩
    refine ⟨(json_ok_iff hblank syntaxError).trans hdoc,
      (containsSensitiveJSON_ok_iff hblank syntaxError).trans hdoc, ?_⟩
    intro hno vs hs v hv hsens
    obtain ⟨w, rest, hfirst⟩ :=
      (containsSensitiveJSON_ok_iff hblank syntaxError).mp ⟨false, hno⟩
    obtain ⟨hrest, hlost⟩ := h w rest hfirst
    obtain rfl := hfirst.stream_eq hrest hs
    obtain rfl := List.mem_singleton.mp hv
    have hnot := (containsSensitiveJSON_eq_false hfirst syntaxError).mp hno
    obtain ⟨name, hname, hs'⟩ := (sensitive_iff.mp hsens).resolve_left hnot
    have hclean := hlost.resolve_left hnot name hname
    rw [hs'] at hclean
    cases hclean

theorem accepts_documents_iff_object :
    Strict ascii (fun _ => "") (bytes " \x7b\"a\":1,\"token\":\x7b\x7d\x7d\n") := by
  refine (accepts_documents_iff ascii _ (by decide +kernel)).mpr ?_
  intro v rest hfirst
  have hparse : parse (bytes " \x7b\"a\":1,\"token\":\x7b\x7d\x7d\n") =
      some (.object [(bytes "a", .scalar (.number (bytes "1"))),
        (bytes "token", .object [])], [0x0a]) := by decide +kernel
  obtain ⟨rfl, rfl⟩ := hfirst.unique (parse_iff.mp hparse)
  exact ⟨List.forall_mem_singleton.mpr rfl, .inr (by decide +kernel)⟩

/-- A second document goes unread, and so does a value that a later member of
the same name replaces. -/
theorem documents_unread :
    (json ascii (fun _ => "") (bytes "\x7b\x7d\x7b\"password\":\"x\"\x7d") =
        .ok (bytes "\x7b\x7d") ∧
      containsSensitiveJSON ascii (fun _ => "")
        (bytes "\x7b\x7d\x7b\"password\":\"x\"\x7d") = .ok false ∧
      (¬ ∃ v, Document v (bytes "\x7b\x7d\x7b\"password\":\"x\"\x7d")) ∧
      ∃ vs, Stream vs (bytes "\x7b\x7d\x7b\"password\":\"x\"\x7d") ∧
        ∃ v ∈ vs, Sensitive ascii v) ∧
    containsSensitiveJSON ascii (fun _ => "")
        (bytes "\x7b\"a\":\x7b\"password\":\"x\"\x7d,\"a\":1\x7d") =
        .ok false ∧
      ∃ v, Document v
          (bytes "\x7b\"a\":\x7b\"password\":\"x\"\x7d,\"a\":1\x7d") ∧
        Sensitive ascii v := by
  have hfirst : parse (bytes "\x7b\x7d\x7b\"password\":\"x\"\x7d") =
      some (.object [], bytes "\x7b\"password\":\"x\"\x7d") := by
    decide +kernel
  have hsecond : parse (bytes "\x7b\"password\":\"x\"\x7d") =
      some (.object [(bytes "password", .scalar (.string (bytes "x")))], []) := by
    decide +kernel
  have hrepeated : parse
      (bytes "\x7b\"a\":\x7b\"password\":\"x\"\x7d,\"a\":1\x7d") =
      some (.object [(bytes "a", .object [(bytes "password",
        .scalar (.string (bytes "x")))]),
        (bytes "a", .scalar (.number (bytes "1")))], []) := by decide +kernel
  refine ⟨⟨by decide +kernel, by decide +kernel, ?_, ?_⟩, by decide +kernel,
    _, document_iff.mpr ⟨[], parse_iff.mp hrepeated, blank_nil⟩,
    bytes "password", by decide +kernel, by decide +kernel⟩
  · rintro ⟨v, hdoc⟩
    obtain ⟨rest, hv, hrest⟩ := document_iff.mp hdoc
    obtain ⟨-, rfl⟩ := hv.unique (parse_iff.mp hfirst)
    exact absurd (hrest 0x7b (by decide +kernel)) (by decide)
  · exact ⟨_, .cons (parse_iff.mp hfirst) (.cons (parse_iff.mp hsecond)
      (.nil blank_nil)), _, List.mem_cons_of_mem _ (List.mem_singleton_self _),
      bytes "password", by decide +kernel, by decide +kernel⟩

end PlatformGo.Redact
