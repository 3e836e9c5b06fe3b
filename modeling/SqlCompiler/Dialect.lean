/-!
# Dialects and Targets

The SQL dialects, the options of a compilation, and the two together.

## Main definitions

- `Dialect`: the five dialects
- `Dialect.name`: the name of a dialect, also in messages
- `Dialect.ofName?`: the dialect of a name or one of its other spellings
- `Options`: the table prefix and the switches that single dialects look at
- `Target`: what SQL is compiled for
-/

namespace SqlCompiler

/-- An SQL dialect. -/
inductive Dialect where
  /-- ANSI quoting and no extensions. -/
  | generic
  /-- MySQL and MariaDB. -/
  | mysql
  | postgres
  | sqlite
  | sqlserver
deriving DecidableEq, Repr

namespace Dialect

/-- All dialects. -/
def all : List Dialect :=
  [.generic, .mysql, .postgres, .sqlite, .sqlserver]

/-- The name of a dialect. -/
def name : Dialect → String
  | .generic => "generic"
  | .mysql => "mysql"
  | .postgres => "postgres"
  | .sqlite => "sqlite"
  | .sqlserver => "sqlserver"

/-- The other spellings under which a dialect is known. -/
def aliases : Dialect → List String
  | .generic => ["ansi"]
  | .mysql => ["mariadb"]
  | .postgres => ["pgsql", "postgresql"]
  | .sqlite => []
  | .sqlserver => ["sqlsrv", "mssql"]

/-- The dialect that a lowercase name or alias belongs to. -/
def ofName? (name : String) : Option Dialect :=
  all.find? fun d => d.name == name || d.aliases.contains name

end Dialect

/-- A text with its ASCII letters in lower case. -/
def lowercase (s : String) : String :=
  String.ofList (s.toList.map Char.toLower)

/-- The options of a compilation. A dialect looks only at those that concern it. -/
structure Options where
  /-- Stands in front of every table name and table alias. -/
  tablePrefix : String := ""
  /-- PostgreSQL: truncating a table truncates the tables that refer to it. -/
  cascadeTruncate : Bool := false
  /-- MySQL: an upsert names its incoming rows by an alias. -/
  upsertAlias : Bool := false
  /-- SQL Server: offsets are expressed by row numbers. -/
  legacyPagination : Bool := false
deriving DecidableEq, Repr

/-- What SQL is compiled for: a dialect and its options. -/
structure Target where
  dialect : Dialect
  options : Options := {}
deriving DecidableEq, Repr

end SqlCompiler
