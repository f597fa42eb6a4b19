import Workbench.Format
set_option autoImplicit false

namespace Workbench

inductive Category where
  | lint | format | test
  deriving DecidableEq, Repr

namespace Category

def all : List Category := [.lint, .format, .test]

def name : Category → String
  | .lint => "lint"
  | .format => "format"
  | .test => "test"

def ofName? (s : String) : Option Category := all.find? fun c => c.name == s

/-- Tools of the category, the preferred one first. -/
def priority : Category → List String
  | .lint => ["ruff", "flake8", "pylint", "mypy", "pydocstyle", "bandit"]
  | .format => ["black", "ruff", "isort", "autopep8", "yapf"]
  | .test => ["pytest", "nose2", "unittest"]

def defaultTool : Category → String
  | .lint => "ruff"
  | .format => "ruff"
  | .test => "pytest"

theorem defaultTool_mem_priority (c : Category) : c.defaultTool ∈ c.priority := by
  cases c <;> decide

end Category

structure PerCategory (α : Type) where
  lint : α
  format : α
  test : α
  deriving DecidableEq, Repr

namespace PerCategory

variable {α : Type}

def get (p : PerCategory α) : Category → α
  | .lint => p.lint
  | .format => p.format
  | .test => p.test

def set (p : PerCategory α) : Category → α → PerCategory α
  | .lint, a => { p with lint := a }
  | .format, a => { p with format := a }
  | .test, a => { p with test := a }

def modify (p : PerCategory α) (c : Category) (f : α → α) : PerCategory α := p.set c (f (p.get c))

@[simp] theorem get_set_self (p : PerCategory α) (c : Category) (a : α) : (p.set c a).get c = a := by
  cases c <;> rfl

theorem get_set_other {c d : Category} (h : d ≠ c) (p : PerCategory α) (a : α) :
    (p.set c a).get d = p.get d := by
  cases c <;> cases d <;> first | rfl | exact absurd rfl h

end PerCategory

def knownTools : List String :=
  ["autopep8", "bandit", "black", "flake8", "isort", "mypy", "nose2", "pydocstyle", "pylint",
    "pytest", "ruff", "unittest", "yapf"]

inductive Hint where
  | lint | format | test | deps | ci | docs | editor | vcs | deploy
  deriving DecidableEq, Repr

def Hint.name : Hint → String
  | .lint => "lint"
  | .format => "format"
  | .test => "test"
  | .deps => "deps"
  | .ci => "ci"
  | .docs => "docs"
  | .editor => "editor"
  | .vcs => "vcs"
  | .deploy => "deploy"

/-- How much a file's settings weigh: the higher rank wins. Dependency lists weigh least, then
continuous integration, shared legacy files, files of one tool, and the project manifest. -/
inductive Rank where
  | dependency | ci | legacy | toolDotfile | manifest
  deriving DecidableEq, Repr

namespace Rank

def name : Rank → String
  | .dependency => "dependency"
  | .ci => "ci"
  | .legacy => "legacy"
  | .toolDotfile => "tool_dotfile"
  | .manifest => "manifest"

def weight : Rank → Nat
  | .dependency => 0
  | .ci => 1
  | .legacy => 2
  | .toolDotfile => 3
  | .manifest => 4

end Rank

/-- A known configuration file, with the tool that it belongs to if it has one alone. -/
structure CatalogEntry where
  pattern : String
  dialect : Dialect
  rank : Rank
  hints : List Hint
  owner : Option String
  deriving DecidableEq, Repr

def CatalogEntry.isPreCommit (e : CatalogEntry) : Bool :=
  ".pre-commit-config.".toList.isPrefixOf e.pattern.toList

namespace Catalog

def owned (tool : String) (dialect : Dialect) (hints : List Hint) (patterns : List String) :
    List CatalogEntry :=
  patterns.map fun p => ⟨p, dialect, .toolDotfile, hints, some tool⟩

def shared (rank : Rank) (dialect : Dialect) (hints : List Hint) (patterns : List String) :
    List CatalogEntry :=
  patterns.map fun p => ⟨p, dialect, rank, hints, none⟩

def manifests : List CatalogEntry :=
  shared .manifest .toml [.lint, .format, .test, .deps] ["pyproject.toml"] ++
  shared .legacy .ini [.lint, .format, .test] ["setup.cfg"] ++
  shared .legacy .setupScript [.deps] ["setup.py"] ++
  shared .legacy .ini [.lint, .test] ["tox.ini"]

def toolFiles : List CatalogEntry :=
  owned "ruff" .toml [.lint, .format] ["ruff.toml", ".ruff.toml"] ++
  owned "black" .toml [.format] ["black.toml", ".black.toml"] ++
  owned "flake8" .ini [.lint] [".flake8", "flake8.ini"] ++
  owned "pylint" .ini [.lint] [".pylintrc", "pylintrc", ".pylint"] ++
  owned "pylint" .toml [.lint] ["pylintrc.toml", ".pylintrc.toml"] ++
  owned "mypy" .ini [.lint] ["mypy.ini", ".mypy.ini"] ++
  owned "pydocstyle" .ini [.lint]
    [".pydocstyle", ".pydocstyle.ini", ".pydocstylerc", ".pydocstylerc.ini"] ++
  owned "bandit" .yaml [.lint] ["bandit.yaml", "bandit.yml", ".bandit.yaml", ".bandit.yml"] ++
  owned "bandit" .ini [.lint] [".bandit"] ++
  owned "isort" .ini [.format] [".isort.cfg", "isort.cfg"] ++
  owned "autopep8" .ini [.format] [".pep8", ".pycodestyle"] ++
  owned "yapf" .ini [.format] [".style.yapf", "yapf.ini", ".yapfrc"] ++
  owned "pytest" .ini [.test] ["pytest.ini", ".pytest.ini"] ++
  owned "nose2" .ini [.test] ["nose2.cfg", "unittest.cfg"] ++
  owned "coverage" .ini [.test] [".coveragerc", "coverage.ini"]

def integrationFiles : List CatalogEntry :=
  shared .dependency .text [.test] [".coverage"] ++
  shared .ci .yaml [.ci, .lint, .format] [".pre-commit-config.yaml", ".pre-commit-config.yml"] ++
  shared .ci .yaml [.ci]
    [".github/workflows/*.yml", ".github/workflows/*.yaml", ".gitlab-ci.yml", ".travis.yml",
      "azure-pipelines.yml", ".circleci/config.yml"]

def documentationFiles : List CatalogEntry :=
  shared .dependency .yaml [.docs]
    ["mkdocs.yml", "mkdocs.yaml", ".readthedocs.yml", ".readthedocs.yaml"] ++
  shared .dependency .text [.docs] ["conf.py", "docs/conf.py"]

def dependencyFiles : List CatalogEntry :=
  shared .dependency .requirements [.deps]
    ["requirements.txt", "requirements-dev.txt", "requirements-test.txt", "dev-requirements.txt",
      "test-requirements.txt", "requirements/*.txt", "constraints.txt"] ++
  shared .dependency .toml [.deps] ["Pipfile"] ++
  shared .dependency .json [.deps] ["Pipfile.lock"] ++
  shared .dependency .toml [.deps] ["poetry.lock"] ++
  shared .dependency .yaml [.deps]
    ["conda-environment.yml", "environment.yml", "environment.yaml"] ++
  shared .dependency .text [.deps] [".python-version"]

def otherFiles : List CatalogEntry :=
  shared .dependency .text [.vcs] [".gitignore", ".gitattributes"] ++
  shared .dependency .ini [.editor] [".editorconfig"] ++
  shared .dependency .json [.editor] [".vscode/settings.json"] ++
  shared .dependency .text [.deploy] ["Dockerfile", ".dockerignore"] ++
  shared .dependency .yaml [.deploy] ["docker-compose.yml", "docker-compose.yaml"] ++
  shared .dependency .text [.deploy] ["Makefile"] ++
  shared .dependency .keyValue [.deploy] [".env"]

def entries : List CatalogEntry :=
  manifests ++ toolFiles ++ integrationFiles ++ documentationFiles ++ dependencyFiles ++ otherFiles

def find? (pattern : String) : Option CatalogEntry := entries.find? fun e => e.pattern == pattern

end Catalog
end Workbench
