import Ndnperf.Cxx.Download
import Ndnperf.Cxx.Interests
import Ndnperf.Ndn.Uri

namespace Ndnperf.Cxx

open Ndn Library Library.Transition

/-! ## Paths in names -/

/-- How ndn-cxx writes a name: a slash before each component, and one alone for the empty name. -/
structure NdnCxx.WritesUris (ndn : NdnCxx) : Prop where
  components : WritesComponents unreserved ndn.componentToUri
  root : ndn.nameToUri [] = [slash]
  joined : ∀ name, name ≠ [] → ndn.nameToUri name = name.flatMap fun component => slash :: ndn.componentToUri component

/-- A component of a path that is not empty and not made of periods only. -/
def Proper (text : Bytes) : Prop := text.any (· != period)

instance (text : Bytes) : Decidable (Proper text) := inferInstanceAs (Decidable (_ = _))

/-- How ndn-cxx reads a name: it splits at the slashes and undoes the escapes. -/
structure NdnCxx.ReadsUris (ndn : NdnCxx) : Prop where
  parsed : ∀ path, (∀ text ∈ path.splitOn slash, Proper text) →
    ndn.nameOfUri path = (path.splitOn slash).map fun text => .generic (Percent.decode text)

variable {ndn : NdnCxx} {server : Server} {client : Client} {opens : Bool} {state : Client.State} {pending : Pending}
  {name : Name} {text path : Bytes}

theorem flatMap_slash (uri : Component → Bytes) (name : Name) :
    (name.flatMap fun component => slash :: uri component).drop 1 = [slash].intercalate (name.map uri) := by
  induction name with
  | nil => rfl
  | cons first rest ih =>
      cases rest with
      | nil => simp
      | cons second rest =>
          simp only [List.flatMap_cons, List.cons_append, List.drop_one, List.tail_cons, List.map_cons] at ih ⊢
          rw [List.intercalate_cons_cons, ← ih]
          simp

/-- The first byte erased is the slash before the first component, or the only one. -/
theorem NdnCxx.WritesUris.drop_nameToUri (writes : ndn.WritesUris) (name : Name) :
    (ndn.nameToUri name).drop 1 = [slash].intercalate (name.map ndn.componentToUri) := by
  by_cases empty : name = []
  · rw [empty, writes.root]
    rfl
  · rw [writes.joined name empty, flatMap_slash]

theorem splitOn_path (writes : ndn.WritesUris) (some_component : name ≠ []) :
    ([slash].intercalate (name.map ndn.componentToUri)).splitOn slash = name.map ndn.componentToUri := by
  refine List.splitOn_intercalate slash (fun text member => ?_) (by simpa using some_component)
  obtain ⟨component, _, rfl⟩ := List.mem_map.mp member
  exact (writes.components.entry escapes_unreserved component).single

/-! ## From the client's path to the server's -/

/-- What a component of the path is written as, once it was read. -/
theorem rewritten_iff (writes : ndn.WritesUris) (proper : Proper text) :
    ndn.componentToUri (.generic (Percent.decode text)) = text ↔ Percent.Canonical unreserved text := by
  rw [writes.components.generic, ← Percent.encode_decode_iff escapes_unreserved.percent]
  split
  · rename_i periods
    have stands : ∀ byte ∈ Percent.decode text, unreserved byte = true := by
      intro byte member
      rw [eq_of_beq (List.all_eq_true.mp periods byte member)]
      rfl
    have improper : ¬(∀ byte ∈ text, byte = period) := by
      simpa [Proper] using proper
    rw [Percent.encode_kept stands]
    refine iff_of_false (fun same => improper ?_) (fun same => improper ?_)
    · rw [← same]
      simpa [ascii, period] using periods
    · rw [← same]
      simpa using periods
  · rw [List.nil_append]

/-- The server opens the path it was given if each component of it is the
canonical escape of itself. -/
theorem servedPath_iff (writes : ndn.WritesUris) (reads : ndn.ReadsUris)
    (proper : ∀ text ∈ client.filePath.splitOn slash, Proper text) :
    Download.servedPath ndn client = client.filePath ↔
      ∀ text ∈ client.filePath.splitOn slash, Percent.Canonical unreserved text := by
  have named := reads.parsed _ proper
  have components : ndn.nameOfUri client.filePath ≠ [] := by
    rw [named]
    simp
  have split : Download.servedPath ndn client = client.filePath ↔
      (ndn.nameOfUri client.filePath).map ndn.componentToUri = client.filePath.splitOn slash := by
    rw [Download.servedPath, writes.drop_nameToUri]
    constructor
    · intro same
      rw [← splitOn_path writes components, same]
    · intro same
      rw [same, List.intercalate_splitOn]
  have pointwise : (ndn.nameOfUri client.filePath).map ndn.componentToUri = client.filePath.splitOn slash ↔
      ∀ text ∈ client.filePath.splitOn slash, ndn.componentToUri (.generic (Percent.decode text)) = text := by
    rw [named, List.map_map]
    simpa using @List.map_inj_left _ _ (client.filePath.splitOn slash)
      (ndn.componentToUri ∘ fun text => .generic (Percent.decode text)) id
  rw [split, pointwise]
  exact forall₂_congr fun text member => rewritten_iff writes (proper text member)

/-- Every Interest of a download makes a server with the same prefix open the
client's path exactly if encoding that path changes none of its bytes. -/
theorem filePath_kept_iff (writes : ndn.WritesUris) (reads : ndn.ReadsUris)
    (same : server.namePrefix = client.namePrefix) (proper : ∀ text ∈ client.filePath.splitOn slash, Proper text)
    (reached : (client.system ndn opens).Reachable state) (member : pending ∈ state.face) :
    server.filePath ndn pending.interest.name = client.filePath ↔
      ∀ text ∈ client.filePath.splitOn slash, Percent.Canonical unreserved text := by
  have chosen : client.filePath ≠ [] := by
    intro empty
    rw [empty] at proper
    exact absurd (proper [] List.mem_cons_self) (by decide)
  have downloading := (Client.downloading_inductive chosen opens).reachable reached
  obtain ⟨index, _, asks⟩ := downloading.asked pending member
  have named : pending.interest.name = client.segmentName ndn index := congrArg Interest.name asks.interest
  rw [named, Download.filePath_segmentName same, servedPath_iff writes reads proper]

/-! The reference library escapes what it writes and undoes it when it reads. -/

theorem writesUris_reference : NdnCxx.reference.WritesUris where
  components := writesComponents_writeComponent escapes_unreserved
  root := rfl
  joined _ some_component := if_neg some_component

theorem readsUris_reference : NdnCxx.reference.ReadsUris where
  parsed path proper := by
    have whole : (path.splitOn slash).filter (· ≠ []) = path.splitOn slash := by
      refine List.filter_eq_self.mpr fun text member => ?_
      have := proper text member
      cases text with
      | nil => cases this
      | cons => rfl
    exact congrArg (List.map _) whole

theorem filePath_kept_sample :
    (Server.sampleServer 4).filePath .reference (Client.sampleClient.segmentName .reference 1) = ascii "a" := by
  have kept := @filePath_kept_iff .reference (Server.sampleServer 4) Client.sampleClient true _
    (Client.sampleClient.request .reference 1 5) writesUris_reference readsUris_reference rfl (by decide)
      (.start ⟨0, rfl⟩) (by decide)
  refine kept.mpr (List.forall_mem_singleton.mpr ?_)
  exact ⟨by decide, trivial⟩

/-- A path of one component, with a space in it. -/
def spacedClient : Client := { Client.sampleClient with filePath := ascii "a b" }

theorem filePath_escaped :
    NdnCxx.reference.WritesUris ∧ NdnCxx.reference.ReadsUris ∧
      (Server.sampleServer 4).namePrefix = spacedClient.namePrefix ∧
      (∀ text ∈ spacedClient.filePath.splitOn slash, Proper text) ∧
      ∃ state, (spacedClient.system .reference true).Reachable state ∧ ∃ pending ∈ state.face,
        (Server.sampleServer 4).filePath .reference pending.interest.name = ascii "a%20b" ∧
          ascii "a%20b" ≠ spacedClient.filePath := by
  refine ⟨writesUris_reference, readsUris_reference, rfl, by decide, _, .start ⟨0, rfl⟩, ?_⟩
  exact ⟨spacedClient.request .reference 0 5, by decide, by decide, by decide⟩

end Ndnperf.Cxx
