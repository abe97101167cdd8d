import SqlGen.Cache
import SqlGen.Sqlite.Functions
import SqlGen.Sqlite.Generator
import SqlGen.Sqlite.Options

/-!
# The SQLite provider

All that one configuration of SQLite needs, read off its options: the dialect, the
builder, the methods and their translators, the generator of changes and the cache.
-/

namespace SqlGen.Sqlite

/-- A configuration of SQLite. -/
structure Provider where
  options : Options := {}

namespace Provider

/-- The provider of a connection string. -/
def connect (connection : String) : Except Error Provider := do
  return { options := ← Options.parse connection }

def dialect (p : Provider) : Dialect := Sqlite.dialect p.options.returning

def builder (_ : Provider) : Builder := Sqlite.builder

/-- The methods that queries may call. -/
def catalog (_ : Provider) : Catalog := Sqlite.catalog

def translators (_ : Provider) : TranslatorChain := Sqlite.translatorChain

def generator (p : Provider) : Generator := Sqlite.generator p.options.returning

def cache (p : Provider) : CommandCache where
  dialect := p.dialect

/-- An empty batch of the greatest size the options allow. -/
def createBatch (p : Provider) : Except Violation Batch :=
  Batch.empty? p.generator p.options.maxBatchSize

end Provider

end SqlGen.Sqlite
