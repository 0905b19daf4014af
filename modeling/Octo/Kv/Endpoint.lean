import Octo.Foundation.Percent

/-!
# The path of a stored key

The runtime writes the deployment, the namespace and the key as three escaped segments of a path;
the orchestrator cleans the path, matches it with its route and unescapes the segments.

* `served_iff`: the handler gets the namespace and the key exactly when the key is not one or two
  dots, which `url.PathEscape` leaves for the cleaning to remove.
-/

namespace Octo.Kv.Endpoint

open List

open Octo.Percent

/-- The bytes that `url.PathEscape` leaves as they are. -/
def segmentByte (c : UInt8) : Bool :=
  (97 ≤ c && c ≤ 122) || (65 ≤ c && c ≤ 90) || (48 ≤ c && c ≤ 57) ||
    (ascii "-_.~$&+=:@").contains c

def pathEscape (s : Bytes) : Bytes := escape segmentByte s

def endpoint (deploymentID «namespace» key : Bytes) : Bytes :=
  ascii "/deployments/" ++ pathEscape deploymentID ++ ascii "/kv/" ++ pathEscape «namespace» ++
    ascii "/" ++ pathEscape key

def requestPath (url : Bytes) : Bytes := url.takeWhile fun c => c != 63 && c != 35

def cleanStep (kept : List Bytes) (segment : Bytes) : List Bytes :=
  if segment = [] ∨ segment = ascii "." then kept
  else if segment = ascii ".." then kept.dropLast
  else kept ++ [segment]

def cleanPath (path : Bytes) : Bytes :=
  let cleaned := ((path.splitOn 47).foldl cleanStep []).flatMap (47 :: ·)
  if cleaned = [] then [47]
  else if path.getLast? = some 47 then cleaned ++ [47]
  else cleaned

/-- The path values of the route `/deployments/{id}/kv/{namespace}/{key...}`. -/
def pathValues (path : Bytes) : Option (Bytes × Bytes × Bytes) := match path.splitOn 47 with
  | [] :: deployments :: id :: kv :: «namespace» :: key :: rest =>
    if pathUnescape deployments = ascii "deployments" ∧ pathUnescape kv = ascii "kv" then
      some (pathUnescape id, pathUnescape «namespace»,
        pathUnescape (intercalate [47] (key :: rest)))
    else none
  | _ => none

def serve (url : Bytes) : Option (Bytes × Bytes × Bytes) := let path := requestPath url
  if cleanPath path = path then pathValues path else none

def Plain (s : Bytes) : Prop := s ≠ [] ∧ s ≠ ascii "." ∧ s ≠ ascii ".."

variable {s : Bytes} {kept : List Bytes}

theorem cleanStep_plain (h : Plain s) : cleanStep kept s = kept ++ [s] := by
  obtain ⟨h0, h1, h2⟩ := h
  simp [cleanStep, h0, h1, h2]

theorem cleanStep_dot : cleanStep kept (ascii ".") = kept := rfl

theorem cleanStep_dots : cleanStep kept (ascii "..") = kept.dropLast := rfl

theorem pathEscape_inj {t : Bytes} : pathEscape s = pathEscape t ↔ s = t := escape_inj (by decide)

@[simp] theorem pathUnescape_pathEscape (s : Bytes) : pathUnescape (pathEscape s) = s := by
  rw [pathUnescape, pathEscape, unescape_escape (by decide)]; rfl

theorem pathUnescape_kept (h : ∀ c ∈ s, segmentByte c = true) : pathUnescape s = s := by
  have he : pathEscape s = s := escape_eq_self h
  rw [← he, pathUnescape_pathEscape, he]

theorem plain_pathEscape : Plain (pathEscape s) ↔ Plain s := by
  have hempty : pathEscape s = [] ↔ s = [] := pathEscape_inj (t := [])
  have hdot : pathEscape s = ascii "." ↔ s = ascii "." := pathEscape_inj (t := ascii ".")
  have hdots : pathEscape s = ascii ".." ↔ s = ascii ".." := pathEscape_inj (t := ascii "..")
  simp [Plain, hempty, hdot, hdots]

theorem not_mem_pathEscape {c : UInt8} (s : Bytes) (h : c = 47 ∨ c = 63 ∨ c = 35) :
    c ∉ pathEscape s := by
  intro hm
  obtain rfl | rfl | rfl := h
  all_goals exact absurd (mem_escape (by decide) (by decide) hm).2 (by decide)

section Request

variable (id ns key : Bytes)

theorem endpoint_eq : endpoint id ns key =
    [ascii "deployments", pathEscape id, ascii "kv", pathEscape ns, pathEscape key].flatMap
      (47 :: ·) := by
  have hdeployments : ascii "/deployments/" = 47 :: ascii "deployments" ++ [47] := by decide
  have hkv : ascii "/kv/" = 47 :: ascii "kv" ++ [47] := by decide
  have hslash : ascii "/" = [47] := by decide
  simp [endpoint, hdeployments, hkv, hslash]

theorem splitOn_endpoint : (endpoint id ns key).splitOn 47 =
    [[], ascii "deployments", pathEscape id, ascii "kv", pathEscape ns, pathEscape key] := by
  have hslash : ∀ s, (47) ∉ pathEscape s := fun s => not_mem_pathEscape s (.inl rfl)
  have he : endpoint id ns key = [] ++ 47 :: (ascii "deployments" ++ 47 :: (pathEscape id ++
      47 :: (ascii "kv" ++ 47 :: (pathEscape ns ++ 47 :: pathEscape key)))) := by
    simp [endpoint_eq]
  rw [he, splitOn_append_cons_self_of_not_mem (by simp),
    splitOn_append_cons_self_of_not_mem (by decide),
    splitOn_append_cons_self_of_not_mem (hslash id),
    splitOn_append_cons_self_of_not_mem (by decide),
    splitOn_append_cons_self_of_not_mem (hslash ns),
    splitOn_eq_singleton (hslash key)]

theorem requestPath_endpoint : requestPath (endpoint id ns key) = endpoint id ns key := by
  have hescaped : ∀ s, ∀ c ∈ pathEscape s, c ≠ 63 ∧ c ≠ 35 := fun s c hc =>
    ⟨fun e => not_mem_pathEscape s (.inr (.inl e)) hc,
      fun e => not_mem_pathEscape s (.inr (.inr e)) hc⟩
  have hfixed : ∀ c ∈ ascii "/deployments/" ++ ascii "/kv/" ++ ascii "/", c ≠ 63 ∧ c ≠ 35 :=
    forall_iff_forall_mem.1 (by decide)
  rw [requestPath, takeWhile_eq_self_iff]
  intro c hc
  have : c ≠ 63 ∧ c ≠ 35 := by
    simp only [endpoint, mem_append] at hc hfixed
    obtain ((((hc | hc) | hc) | hc) | hc) | hc := hc
    · exact hfixed c (.inl (.inl hc))
    · exact hescaped id c hc
    · exact hfixed c (.inl (.inr hc))
    · exact hescaped ns c hc
    · exact hfixed c (.inr hc)
    · exact hescaped key c hc
  simpa using this

theorem served_iff (hid : Plain id) (hns : ns ≠ [])
    (hletters : ∀ c ∈ ns, 97 ≤ c ∧ c ≤ 122 ∨ 65 ≤ c ∧ c ≤ 90 ∨ c = 95 ∨ 128 ≤ c) (hkey : key ≠ []) :
    serve (endpoint id ns key) = some (id, ns, key) ↔ key ≠ ascii "." ∧ key ≠ ascii ".." := by
  have hplain : Plain ns := by
    refine ⟨hns, ?_, ?_⟩
    all_goals rintro rfl; exact absurd (hletters 46 (by decide)) (by decide)
  -- Only the last segment, the key's, can be a dot.
  have hfold : ((endpoint id ns key).splitOn 47).foldl cleanStep [] =
      cleanStep [ascii "deployments", pathEscape id, ascii "kv", pathEscape ns]
        (pathEscape key) := by
    simp only [splitOn_endpoint, foldl_cons, cleanStep_plain (plain_pathEscape.2 hid), cleanStep_plain (plain_pathEscape.2 hplain)]
    rfl
  have hvalues : pathValues (endpoint id ns key) = some (id, ns, key) := by
    simp [pathValues, splitOn_endpoint,
      pathUnescape_kept (s := ascii "deployments") (all_eq_true.1 (by decide)),
      pathUnescape_kept (s := ascii "kv") (all_eq_true.1 (by decide))]
  have hlast : (endpoint id ns key).getLast? ≠ some 47 := by
    intro h
    have hne : pathEscape key ≠ [] := fun e => hkey (pathEscape_inj.1 e)
    rw [endpoint, getLast?_append_of_ne_nil _ hne] at h
    exact not_mem_pathEscape key (.inl rfl) (mem_of_getLast? h)
  have hclean : cleanPath (endpoint id ns key) = endpoint id ns key ↔
      key ≠ ascii "." ∧ key ≠ ascii ".." := by
    simp only [cleanPath, if_neg hlast, hfold]
    rw [endpoint_eq]
    by_cases hdots : key = ascii "." ∨ key = ascii ".."
    · obtain rfl | rfl := hdots
      · simp [show pathEscape (ascii ".") = ascii "." by decide, cleanStep_dot]
      · simp [show pathEscape (ascii "..") = ascii ".." by decide, cleanStep_dots]
    · rw [cleanStep_plain (plain_pathEscape.2 ⟨hkey, not_or.1 hdots⟩)]
      simpa using not_or.1 hdots
  simp [serve, requestPath_endpoint, hvalues, hclean]

end Request

theorem nested_key_served :
    serve (endpoint (ascii "7") (ascii "user_data") (ascii "../a b/%2F")) =
      some (ascii "7", ascii "user_data", ascii "../a b/%2F") :=
  (served_iff (ascii "7") (ascii "user_data") (ascii "../a b/%2F") (by unfold Plain; decide)
    (by decide) (forall_iff_forall_mem.1 (by decide)) (by decide)).2 ⟨by decide, by decide⟩

theorem dots_not_served :
    cleanPath (endpoint (ascii "7") (ascii "user_data") (ascii "..")) =
        ascii "/deployments/7/kv" ∧
      serve (endpoint (ascii "7") (ascii "user_data") (ascii "..")) = none := by
  have hclean : cleanPath (endpoint (ascii "7") (ascii "user_data") (ascii "..")) =
      ascii "/deployments/7/kv" := by decide
  refine ⟨hclean, ?_⟩
  simp only [serve]
  rw [if_neg (by decide)]

/-- **Keys do not collide**: two entries have one path only if they are the same entry. -/
theorem endpoint_inj {id ns key id' ns' key' : Bytes} :
    endpoint id ns key = endpoint id' ns' key' ↔ id = id' ∧ ns = ns' ∧ key = key' := by
  constructor
  · intro h
    have hsplit := congrArg (·.splitOn 47) h
    simp only [splitOn_endpoint, cons.injEq, pathEscape_inj] at hsplit
    exact ⟨hsplit.2.2.1, hsplit.2.2.2.2.1, hsplit.2.2.2.2.2.1⟩
  · rintro ⟨rfl, rfl, rfl⟩
    rfl

end Octo.Kv.Endpoint
