import Mathlib.Data.List.AList
import Mathlib.Data.List.Sort
import Mathlib.Data.String.Basic
import PlatformGo.Lib.Spelling

/-!
# The datasets in the metadata of an instance

A service that imports or exports datasets says so in the metadata of its
instances. `importprovider` and `exportprovider` are one package written twice:
they differ in the keys, in the texts, and in the fields of a dataset that only
one of them has and checks. What they share is written once here, for a
`Package` that holds the differences.

`slices.SortFunc` may exchange datasets of one code. There are none when it is
called, so any sort does.
-/

namespace PlatformGo.ProviderMetadata

open Spelling

structure Dataset (E : Type) where
  code : String
  title : String
  formats : List String
  /-- The fields that only one of the packages has. -/
  options : E
  deriving DecidableEq, Repr

/-- What the packages differ in. -/
structure Package (E : Type) where
  providerMetadataKey : String
  datasetsMetadataKey : String
  keys_ne : providerMetadataKey ≠ datasetsMetadataKey
  /-- The word for the package in the texts of its errors. -/
  kind : String
  /-- What a dataset requires, in the text of the error. -/
  required : String
  /-- The check of the fields that only this package has. -/
  accepts : E → Bool

/-- `json.Marshal` and `json.Unmarshal`, for datasets. -/
structure Json (E : Type) where
  marshal : List (Dataset E) → Except GoErr String
  unmarshal : String → Except GoErr (List (Dataset E))

def supportedFormats : List String := ["csv", "jsonl", "xlsx"]

/-- A character of `[a-z0-9._-]`. -/
def isCodeChar (c : Char) : Bool :=
  ('a' ≤ c && c ≤ 'z') || ('0' ≤ c && c ≤ '9') || c = '.' || c = '_' || c = '-'

/-- The regular expression `datasetCode`, `^[a-z][a-z0-9._-]{1,127}$`. -/
def datasetCode (code : String) : Bool :=
  match code.toList with
  | [] => false
  | c :: cs =>
      'a' ≤ c && c ≤ 'z' && cs.all isCodeChar && 1 ≤ cs.length && cs.length ≤ 127

variable {E : Type} (p : Package E) (u : Unicode) (json : Json E)

/-- An error about a dataset: what stands before its code and after it. -/
def datasetError (before code after : String) : GoErr :=
  .new (bytes (before ++ quote u.isPrint code ++ after))

/-- The loop over the formats of a dataset, from those it has collected. -/
def normalizeFormats (code : String) :
    List String → List String → Except GoErr (List String)
  | formats, [] => .ok formats
  | formats, format :: rest =>
      let format := u.toLower (trimSpace format)
      if ¬ supportedFormats.contains format then
        .error (datasetError u "dataset " code
          (" has unsupported format " ++ quote u.isPrint format))
      else if ¬ formats.contains format then
        normalizeFormats code (formats ++ [format]) rest
      else normalizeFormats code formats rest

/-- `value` once its code and its title are set. -/
def trimDataset (value : Dataset E) : Dataset E :=
  { value with
    code := u.toLower (trimSpace value.code), title := trimSpace value.title }

/-- The checks of `value`, with the codes of the datasets before it, and its
formats. -/
def checkDataset (seen : List String) (value : Dataset E) :
    Except GoErr (Dataset E) :=
  if ¬ datasetCode value.code ∨ value.title = "" ∨ ¬ p.accepts value.options then
    .error (datasetError u "dataset " value.code (" requires " ++ p.required))
  else if seen.contains value.code then
    .error (datasetError u ("duplicate " ++ p.kind ++ " dataset ") value.code "")
  else
    match normalizeFormats u value.code [] value.formats with
    | .error err => .error err
    | .ok formats =>
        if formats.length = 0 then
          .error (datasetError u "dataset " value.code
            " requires at least one format")
        else .ok { value with formats := formats.insertionSort (· ≤ ·) }

/-- The loop over the datasets, with the codes of those before. -/
def normalizeDatasets :
    List String → List (Dataset E) → Except GoErr (List (Dataset E))
  | _, [] => .ok []
  | seen, value :: rest => do
      let value ← checkDataset p u seen (trimDataset u value)
      let result ← normalizeDatasets (value.code :: seen) rest
      return value :: result

def normalize (datasets : List (Dataset E)) : Except GoErr (List (Dataset E)) :=
  if datasets.length = 0 then
    .error (.new (bytes ("at least one " ++ p.kind ++ " dataset is required")))
  else
    match normalizeDatasets p u [] datasets with
    | .error err => .error err
    | .ok result => .ok (result.insertionSort fun a b => a.code ≤ b.code)

def metadata (datasets : List (Dataset E)) :
    Except GoErr (AList fun _ : String => String) :=
  match normalize p u datasets with
  | .error err => .error err
  | .ok normalized =>
      match json.marshal normalized with
      | .error err => .error (.wrap ("encode " ++ p.kind ++ " datasets") err)
      | .ok payload =>
          .ok (((∅ : AList fun _ : String => String).insert
            p.providerMetadataKey "true").insert p.datasetsMetadataKey payload)

def parseMetadata (metadata : AList fun _ : String => String) :
    Except GoErr (List (Dataset E)) :=
  if (metadata.lookup p.providerMetadataKey).getD "" ≠ "true" then
    .error (.new (bytes ("instance is not an " ++ p.kind ++ " provider")))
  else
    match json.unmarshal ((metadata.lookup p.datasetsMetadataKey).getD "") with
    | .error err => .error (.wrap ("decode " ++ p.kind ++ " datasets") err)
    | .ok datasets => normalize p u datasets

end PlatformGo.ProviderMetadata

namespace PlatformGo.ImportProvider

open Spelling (Unicode)
open ProviderMetadata (Json Package)

structure Options where
  maxBatchSize : Int32
  supportsDryRun : Bool
  deriving DecidableEq, Repr

abbrev Dataset := ProviderMetadata.Dataset Options

def package : Package Options where
  providerMetadataKey := "platform.import.provider"
  datasetsMetadataKey := "platform.import.datasets"
  keys_ne := by decide
  kind := "import"
  required := "a valid code, title, and max batch size"
  accepts options := 1 ≤ options.maxBatchSize && options.maxBatchSize ≤ 10000

def normalize (u : Unicode) : List Dataset → Except GoErr (List Dataset) :=
  ProviderMetadata.normalize package u

def metadata (u : Unicode) (json : Json Options) :
    List Dataset → Except GoErr (AList fun _ : String => String) :=
  ProviderMetadata.metadata package u json

def parseMetadata (u : Unicode) (json : Json Options) :
    (AList fun _ : String => String) → Except GoErr (List Dataset) :=
  ProviderMetadata.parseMetadata package u json

end PlatformGo.ImportProvider

namespace PlatformGo.ExportProvider

open Spelling (Unicode)
open ProviderMetadata (Json Package)

structure Options where
  supportsSnapshot : Bool
  deriving DecidableEq, Repr

abbrev Dataset := ProviderMetadata.Dataset Options

def package : Package Options where
  providerMetadataKey := "platform.export.provider"
  datasetsMetadataKey := "platform.export.datasets"
  keys_ne := by decide
  kind := "export"
  required := "a valid code and title"
  accepts _ := true

def normalize (u : Unicode) : List Dataset → Except GoErr (List Dataset) :=
  ProviderMetadata.normalize package u

def metadata (u : Unicode) (json : Json Options) :
    List Dataset → Except GoErr (AList fun _ : String => String) :=
  ProviderMetadata.metadata package u json

def parseMetadata (u : Unicode) (json : Json Options) :
    (AList fun _ : String => String) → Except GoErr (List Dataset) :=
  ProviderMetadata.parseMetadata package u json

end PlatformGo.ExportProvider
