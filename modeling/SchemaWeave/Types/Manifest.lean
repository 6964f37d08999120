import SchemaWeave.Yaml.Decode

/-!
The written form of a type graph: packages with their files, types and methods.
-/

namespace SchemaWeave

namespace Manifest

structure EnumEntry where
  name : String
  value : Node

structure FieldEntry where
  name : Option String
  type : String
  tag : String
  doc : String
  embedded : Bool

structure TypeEntry where
  name : String
  file : Option String
  doc : String
  type : Option String
  fields : Option (List FieldEntry)
  constants : List EnumEntry

structure MethodEntry where
  receiver : String
  name : String
  file : Option String
  doc : String

structure FileEntry where
  path : String
  imports : Dictionary

structure PackageEntry where
  path : String
  files : List FileEntry
  types : List TypeEntry
  methods : List MethodEntry

end Manifest

structure Manifest where
  root : String
  packages : List Manifest.PackageEntry

namespace Manifest

open Yaml (Decoder)
open Yaml.Decoder (record list text optional bool dictionary)

def enumEntry : Decoder EnumEntry := fun s => do
  let parts ← record ["name", "value"] .ignored s
  return ⟨← parts.required "name" text, ← parts.required "value" Yaml.node⟩

def fieldEntry : Decoder FieldEntry := fun s => do
  let parts ← record ["name", "type", "tag", "doc", "embedded"] .ignored s
  return {
    name := ← parts.withDefault "name" none (optional text)
    type := ← parts.required "type" text
    tag := ← parts.withDefault "tag" "" text
    doc := ← parts.withDefault "doc" "" text
    embedded := ← parts.withDefault "embedded" false bool }

def typeEntry : Decoder TypeEntry := fun s => do
  let parts ← record ["name", "file", "doc", "type", "fields", "enum"] .ignored s
  return {
    name := ← parts.required "name" text
    file := ← parts.withDefault "file" none (optional text)
    doc := ← parts.withDefault "doc" "" text
    type := ← parts.withDefault "type" none (optional text)
    fields := ← parts.withDefault "fields" none (optional (list fieldEntry))
    constants := ← parts.withDefault "enum" [] (list enumEntry) }

def methodEntry : Decoder MethodEntry := fun s => do
  let parts ← record ["receiver", "name", "file", "doc"] .ignored s
  return {
    receiver := ← parts.required "receiver" text
    name := ← parts.required "name" text
    file := ← parts.withDefault "file" none (optional text)
    doc := ← parts.withDefault "doc" "" text }

def fileEntry : Decoder FileEntry := fun s => do
  let parts ← record ["path", "imports"] .ignored s
  return ⟨← parts.required "path" text, ← parts.withDefault "imports" [] dictionary⟩

def packageEntry : Decoder PackageEntry := fun s => do
  let parts ← record ["path", "files", "types", "methods"] .ignored s
  return {
    path := ← parts.required "path" text
    files := ← parts.withDefault "files" [] (list fileEntry)
    types := ← parts.withDefault "types" [] (list typeEntry)
    methods := ← parts.withDefault "methods" [] (list methodEntry) }

/-- A whole manifest. -/
def document : Decoder Manifest := fun s => do
  let parts ← record ["module", "packages"] .ignored s
  return {
    root := ← parts.withDefault "module" "" text
    packages := ← parts.withDefault "packages" [] (list packageEntry) }

/-- Reads the text of a manifest. -/
def ofYaml (text : String) : Except Yaml.Fault Manifest := document.ofText text

end Manifest

end SchemaWeave
