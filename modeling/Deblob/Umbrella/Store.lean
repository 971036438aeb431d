import Deblob.Umbrella.Types
import Deblob.Lib.SortedMap
import Mathlib.Data.Prod.Lex
import Mathlib.Data.String.Basic

/-!
# The umbrella store

Umbrellas, their transforms and their lineage are written and read through one interface. The
in-memory store is the reference implementation: three ordered maps. The operations are also data,
so that two stores can be given the same ones.
-/

namespace Deblob.Umbrella

open Lib

/-! ## Records -/

inductive UmbrellaState where
  | provisional
  | active
  | rejected
deriving DecidableEq

/-- A gold contract with its identity. -/
structure UmbrellaRecord extends UmbrellaSchema where
  umbrellaId : String
  label : String
  version : ℕ

structure StoredUmbrella where
  schema : UmbrellaRecord
  state : UmbrellaState

/-- A transform with the schemas it goes between. -/
structure TransformRecord extends ChildTransform where
  childSchemaId : String
  umbrellaId : String
  childRevision : String

/-- What a promotion writes at once. -/
structure UmbrellaBundle where
  umbrella : UmbrellaRecord
  transforms : List TransformRecord

structure LineageMember where
  childSchemaId : String
  childRevision : String
  transformPresent : Bool
deriving DecidableEq

/-- What was consolidated when a human approved the umbrella, and why. -/
structure LineageAssertion where
  umbrellaId : String
  umbrellaVersion : ℕ
  members : List LineageMember
  approvedReason : String
deriving DecidableEq

/-- What a backend can complain about; the source formats it as a text. -/
inductive BackendError where
  | json (message : String)
  | badState (text : String)
deriving DecidableEq

inductive StoreError where
  | umbrellaNotFound (id : String)
  | bundleMismatch (umbrella found : String)
  | backend (error : BackendError)
deriving DecidableEq

/-- Every transform of a bundle must name its umbrella. -/
def UmbrellaBundle.mismatch (bundle : UmbrellaBundle) : Option StoreError :=
  (bundle.transforms.find? fun transform ↦
    transform.umbrellaId ≠ bundle.umbrella.umbrellaId).map fun transform ↦
      .bundleMismatch bundle.umbrella.umbrellaId transform.umbrellaId

/-! ## Operations -/

inductive StoreOp where
  | putUmbrella (schema : UmbrellaRecord) (state : UmbrellaState)
  | getUmbrella (id : String)
  | setState (id : String) (state : UmbrellaState)
  | listUmbrellas (state : UmbrellaState)
  | putTransform (transform : TransformRecord)
  | getTransform (umbrellaId childId : String)
  | listTransforms (umbrellaId : String)
  | promoteBundle (bundle : UmbrellaBundle)
  | putLineageAssertion (assertion : LineageAssertion)
  | getLineageAssertion (umbrellaId : String)

inductive StoreAnswer where
  | done
  | umbrella (stored : Option StoredUmbrella)
  | umbrellas (stored : List StoredUmbrella)
  | transform (found : Option TransformRecord)
  | transforms (found : List TransformRecord)
  | lineage (found : Option LineageAssertion)

/-! ## The in-memory store -/

structure InMemoryUmbrellaStore where
  umbrellas : List (String × StoredUmbrella)
  /-- By umbrella and child. -/
  transforms : List ((String ×ₗ String) × TransformRecord)
  lineage : List (String × LineageAssertion)

namespace InMemoryUmbrellaStore

def new : InMemoryUmbrellaStore := ⟨[], [], []⟩

variable (store : InMemoryUmbrellaStore)

def putUmbrella (schema : UmbrellaRecord) (state : UmbrellaState) : InMemoryUmbrellaStore :=
  { store with
    umbrellas := insertWith schema.umbrellaId ⟨schema, state⟩ (fun _ ↦ ⟨schema, state⟩)
      store.umbrellas }

def getUmbrella (id : String) : Option StoredUmbrella := store.umbrellas.lookup id

def setState (id : String) (state : UmbrellaState) :
    Except StoreError StoreAnswer × InMemoryUmbrellaStore :=
  match store.umbrellas.lookup id with
  | none => (.error (.umbrellaNotFound id), store)
  | some stored => (.ok .done, { store with
      umbrellas := insertWith id { stored with state } (fun stored ↦ { stored with state })
        store.umbrellas })

def listUmbrellas (state : UmbrellaState) : List StoredUmbrella :=
  (store.umbrellas.map Prod.snd).filter fun stored ↦ stored.state = state

def putTransform (transform : TransformRecord) : InMemoryUmbrellaStore :=
  { store with
    transforms := insertWith (toLex (transform.umbrellaId, transform.childSchemaId)) transform
      (fun _ ↦ transform) store.transforms }

def getTransform (umbrellaId childId : String) : Option TransformRecord :=
  getEntry store.transforms (toLex (umbrellaId, childId))

def listTransforms (umbrellaId : String) : List TransformRecord :=
  (store.transforms.filter fun entry ↦ (ofLex entry.1).1 = umbrellaId).map Prod.snd

def promoteBundle (bundle : UmbrellaBundle) :
    Except StoreError StoreAnswer × InMemoryUmbrellaStore :=
  match bundle.mismatch with
  | some error => (.error error, store)
  | none => (.ok .done,
      bundle.transforms.foldl putTransform (store.putUmbrella bundle.umbrella .active))

def putLineageAssertion (assertion : LineageAssertion) : InMemoryUmbrellaStore :=
  { store with
    lineage := insertWith assertion.umbrellaId assertion (fun _ ↦ assertion) store.lineage }

def getLineageAssertion (umbrellaId : String) : Option LineageAssertion :=
  store.lineage.lookup umbrellaId

def apply : StoreOp → Except StoreError StoreAnswer × InMemoryUmbrellaStore
  | .putUmbrella schema state => (.ok .done, store.putUmbrella schema state)
  | .getUmbrella id => (.ok (.umbrella (store.getUmbrella id)), store)
  | .setState id state => store.setState id state
  | .listUmbrellas state => (.ok (.umbrellas (store.listUmbrellas state)), store)
  | .putTransform transform => (.ok .done, store.putTransform transform)
  | .getTransform umbrellaId childId =>
    (.ok (.transform (store.getTransform umbrellaId childId)), store)
  | .listTransforms umbrellaId => (.ok (.transforms (store.listTransforms umbrellaId)), store)
  | .promoteBundle bundle => store.promoteBundle bundle
  | .putLineageAssertion assertion => (.ok .done, store.putLineageAssertion assertion)
  | .getLineageAssertion umbrellaId =>
    (.ok (.lineage (store.getLineageAssertion umbrellaId)), store)

/-! ### What each write changes -/

variable {store}

@[simp]
theorem getUmbrella_putUmbrella {schema : UmbrellaRecord} {state : UmbrellaState} {id : String} :
    (store.putUmbrella schema state).getUmbrella id =
      if id = schema.umbrellaId then some ⟨schema, state⟩ else store.getUmbrella id :=
  lookup_insert _ _ _ _

@[simp]
theorem getTransform_putTransform {transform : TransformRecord} {umbrellaId childId : String} :
    (store.putTransform transform).getTransform umbrellaId childId =
      if (umbrellaId, childId) = (transform.umbrellaId, transform.childSchemaId) then some transform
      else store.getTransform umbrellaId childId := by
  have hlookup := lookup_insert store.transforms
    (toLex (transform.umbrellaId, transform.childSchemaId)) (toLex (umbrellaId, childId)) transform
  simp only [toLex_inj] at hlookup
  exact hlookup

@[simp]
theorem getLineageAssertion_put {assertion : LineageAssertion} {umbrellaId : String} :
    (store.putLineageAssertion assertion).getLineageAssertion umbrellaId =
      if umbrellaId = assertion.umbrellaId then some assertion
      else store.getLineageAssertion umbrellaId :=
  lookup_insert _ _ _ _

end InMemoryUmbrellaStore

end Deblob.Umbrella
